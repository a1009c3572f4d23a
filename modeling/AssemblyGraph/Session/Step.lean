import AssemblyGraph.Session.Annotate
import AssemblyGraph.Session.Compare
import AssemblyGraph.Session.Types

/-!
Running commands.

A step carries a command out and then releases the types that nothing owns any
more, so a state between two steps holds no type without an owner.
-/

namespace AssemblyGraph

namespace Session

/-- Carries a command out, without releasing anything at its end. -/
def perform (s : Session) : Command → Outcome
  | .newRegistry origin bindTo => s.newRegistry origin bindTo
  | .createType reg namespaceName name flags bindTo? =>
    s.createType reg namespaceName name flags bindTo?
  | .createNested reg enclosing name flags bindTo? =>
    s.createNested reg enclosing name flags bindTo?
  | .createRef reg namespaceName name origin bindTo? =>
    s.createRef reg namespaceName name origin bindTo?
  | .newType header bindTo? => s.newType header bindTo?
  | .chain times names enclosing? place bindTo => s.chain times names enclosing? place bindTo
  | .insert reg type => s.insert reg type
  | .addGenericParam reg type name => s.addGenericParam reg type name
  | .createMethod reg type name attributes signature bindTo? =>
    s.createMethod reg type name attributes signature bindTo?
  | .createConstructor reg type params bindTo? => s.createConstructor reg type params bindTo?
  | .newMethod method bindTo? => s.newMethod method bindTo?
  | .setDeclaringType method type => s.setDeclaringType method type
  | .pushMethod type method => s.pushMethod type method
  | .setEnclosing type enclosing => s.setEnclosing type enclosing
  | .setDefinition type definition => s.setDefinition type definition
  | .resolve type bindTo? => s.resolve type bindTo?
  | .get reg token bindTo? => s.get reg token bindTo?
  | .named reg fullName bindTo? => s.named reg fullName bindTo?
  | .namedAll reg fullName => s.namedAll reg fullName
  | .primitive reg kind bindTo? => s.primitive reg kind bindTo?
  | .allTypes reg => s.allTypes reg
  | .declaredTypes reg => s.declaredTypes reg
  | .describeRegistry reg => s.describeRegistry reg
  | .viewType type => s.viewType type
  | .describeType type => s.describeType type
  | .viewMethod method => s.viewMethod method
  | .describeMethod method => s.describeMethod method
  | .findConstructor type shape => s.findConstructor type shape
  | .constructor type shape bindTo? => s.constructor type shape bindTo?
  | .makeLink type bindTo => s.makeLink type bindTo
  | .viewLink link => s.viewLink link
  | .upgrade link bindTo? => s.upgrade link bindTo?
  | .compare a b => s.compare a b
  | .hash type => s.hash type
  | .hashesCancel types => s.hashesCancel types
  | .useMap actions => s.useMap actions
  | .matchTypes left right => s.matchTypes left right
  | .newModule name bindTo config => s.newModule name bindTo config
  | .importMethod module method bindTo? => s.importMethod module method bindTo?
  | .viewMethodRef methodRef => s.viewMethodRef methodRef
  | .memberRef module token => s.memberRef module token
  | .describeModule module => s.describeModule module
  | .newTable module byte boolean bindTo => s.newTable module byte boolean bindTo
  | .resolveTable module reg bindTo => s.resolveTable module reg bindTo
  | .bindWellKnown type table kind => s.bindWellKnown type table kind
  | .wellKnown owner kind bindTo? => s.wellKnown owner kind bindTo?
  | .newFactory embedded nullable nullableContext nullablePublicOnly table config bindTo =>
    s.newFactory embedded nullable nullableContext nullablePublicOnly table config bindTo
  | .validate factory => s.validate factory
  | .build factory request bindTo? => s.build factory request bindTo?
  | .makeRecord methodRef fixedArgs namedArgs bindTo =>
    s.makeRecord methodRef fixedArgs namedArgs bindTo
  | .viewRecord record => s.viewRecord record
  | .property record name => s.property record name
  | .attach type record => s.attach type record
  | .drop kind name => s.drop kind name

/-- Carries a command out and releases the types that nothing owns any more. -/
def step (s : Session) (command : Command) : Outcome :=
  let (s, answer) := s.perform command
  (s.settle, answer)

end Session

end AssemblyGraph
