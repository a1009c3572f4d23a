import AssemblyGraph.Session.Command

/-!
Commands on the modules under construction, on tables and factories, and on
attribute records.
-/

namespace AssemblyGraph

namespace Session

def findTarget (s : Session) (module : String) (next : ModuleId → TargetModule → Outcome) :
    Outcome :=
  s.find s.modules module fun id => s.present module (s.target? id) (next id)

def viewTable (s : Session) (table : WellKnownTable) : TableView :=
  s.graph.viewTable ((s.target? table.module).elim "" (·.name)) table

def memberRefCountOf (s : Session) (f : Factory) : Nat :=
  (s.target? f.table.module).elim 0 TargetModule.memberRefCount

def newModule (s : Session) (name bindTo : String) (config : Config) : Outcome :=
  let m := TargetModule.create name config
  let (s, id) := s.addTarget m
  { s with modules := s.modules.insert bindTo id }.reply (.newModule m.name m.origin m.describe)

def importMethod (s : Session) (module method : String) (bindTo? : Option String) : Outcome :=
  s.findTarget module fun id m =>
    s.find s.methods method fun e =>
      s.present method (s.graph.methodWithId? e) fun entry =>
        s.attempt (m.refer s.graph entry) fun (r, m) =>
          ((s.setTarget id m).bindMethodRef bindTo? r).reply
            (.imported (s.graph.viewReference r) m.memberRefCount)

def viewMethodRef (s : Session) (methodRef : String) : Outcome :=
  s.find s.methodRefs methodRef fun r =>
    s.reply (.methodRef (some (s.graph.viewReference r)))

def memberRef (s : Session) (module : String) (token : Token) : Outcome :=
  s.findTarget module fun _ m =>
    s.reply (.methodRef ((m.memberRef? token).map fun row => s.graph.viewReference (.imported row)))

def describeModule (s : Session) (module : String) : Outcome :=
  s.findTarget module fun _ m => s.reply (.module m.memberRefCount m.describe)

def replyTable (s : Session) (table : WellKnownTable) (bindTo : String) : Outcome :=
  { s with tables := s.tables.insert bindTo table }.reply (.table (s.viewTable table))

def newTable (s : Session) (module byte boolean bindTo : String) : Outcome :=
  s.find s.modules module fun m =>
    s.find s.types byte fun byte =>
      s.find s.types boolean fun boolean =>
        s.replyTable (.create m byte boolean) bindTo

def resolveTable (s : Session) (module reg bindTo : String) : Outcome :=
  s.find s.modules module fun m =>
    s.find s.registries reg fun r =>
      s.attempt (WellKnownTable.resolve m r) fun table => s.replyTable table bindTo

/-- Binds a framework type in a table. The type that was bound before is released
before the answer is made. -/
def bindWellKnown (s : Session) (type table : String) (kind : WellKnown) : Outcome :=
  s.find s.types type fun t =>
    s.find s.tables table fun known =>
      let known := known.bind kind t
      let s := { s with tables := s.tables.insert table known }.settle
      s.reply (.table (s.viewTable known))

/-- Goes on with the table of an owner. -/
def findTable (s : Session) (owner : TableOwner) (next : WellKnownTable → Outcome) : Outcome :=
  match owner with
  | .table name => s.find s.tables name next
  | .factory name => s.find s.factories name fun f => next f.table

def wellKnown (s : Session) (owner : TableOwner) (kind : WellKnown) (bindTo? : Option String) :
    Outcome :=
  s.findTable owner fun table =>
    s.attempt (table.get kind) fun t =>
      (s.bindType bindTo? t).reply (.type (s.graph.brief? t))

/-- Makes a factory, which takes its table over; the table's name is free again
even if a check fails. -/
def newFactory (s : Session)
    (embedded nullable nullableContext nullablePublicOnly table : String) (config : Config)
    (bindTo : String) : Outcome :=
  s.find s.types embedded fun embedded =>
    s.find s.types nullable fun nullable =>
      s.find s.types nullableContext fun nullableContext =>
        s.find s.types nullablePublicOnly fun nullablePublicOnly =>
          s.find s.tables table fun known =>
            let s := { s with tables := s.tables.erase table }
            let made := Factory.create s.graph config known embedded nullable nullableContext
              nullablePublicOnly
            s.attempt made fun f =>
              { s with factories := s.factories.insert bindTo f }.reply
                (.memberRefCount (s.memberRefCountOf f))

def validate (s : Session) (factory : String) : Outcome :=
  s.find s.factories factory fun f =>
    s.attempt (f.validate s.graph) fun _ => s.reply (.memberRefCount (s.memberRefCountOf f))

def build (s : Session) (factory : String) (request : Request) (bindTo? : Option String) :
    Outcome :=
  s.find s.factories factory fun f =>
    s.present factory (s.target? f.table.module) fun m =>
      s.attempt (f.build s.graph m request) fun (record, m) =>
        ((s.setTarget f.table.module m).bindRecord bindTo? record).reply
          (.built (s.graph.viewRecord record) m.memberRefCount)

def findArgType (s : Session) : NamedArgType → (ArgType → Outcome) → Outcome
  | .single type, next => s.find s.types type fun t => next (.single t)
  | .array element, next => s.findArgType element fun t => next (.array t)

/-- Goes on with arguments whose types are given by name. -/
def findArgs (s : Session) : List ArgSpec → (List TypedArg → Outcome) → Outcome
  | [], next => next []
  | spec :: rest, next =>
    s.findArgType spec.type fun type => s.findArgs rest fun args =>
      next (⟨type, spec.value⟩ :: args)

def makeRecord (s : Session) (methodRef : String) (fixedArgs : List ArgSpec)
    (namedArgs : List NamedArgSpec) (bindTo : String) : Outcome :=
  s.find s.methodRefs methodRef fun constructor =>
    s.findArgs fixedArgs fun fixedArgs =>
      s.findArgs (namedArgs.map (·.arg)) fun args =>
        let named := List.zipWith (fun spec arg => ⟨spec.isField, spec.name, arg⟩) namedArgs args
        let record : AttributeRecord := ⟨constructor, fixedArgs, named⟩
        { s with records := s.records.insert bindTo record }.reply
          (.record (s.graph.viewRecord record))

def viewRecord (s : Session) (record : String) : Outcome :=
  s.find s.records record fun r => s.reply (.record (s.graph.viewRecord r))

def property (s : Session) (record name : String) : Outcome :=
  s.find s.records record fun r =>
    s.reply (.namedArg ((r.property? name).map s.graph.viewNamedArg))

/-- Attaches a record to a type, and lists the constructors of all that are
attached to it. -/
def attach (s : Session) (type record : String) : Outcome :=
  s.find s.types type fun t =>
    s.find s.records record fun r =>
      let g := s.graph.attach t r
      let records : List AttributeRecord := (g.type? t).elim [] TypeDecl.attributes
      let constructors := records.map fun attached => attached.constructor.token
      { s with graph := g }.reply (.attached constructors)

/-- Frees a name; answers whether it was bound. -/
def drop (s : Session) (kind : HandleKind) (name : String) : Outcome :=
  match kind with
  | .registry =>
    { s with registries := s.registries.erase name }.reply (.flag (s.registries.contains name))
  | .type => { s with types := s.types.erase name }.reply (.flag (s.types.contains name))
  | .method => { s with methods := s.methods.erase name }.reply (.flag (s.methods.contains name))
  | .link => { s with links := s.links.erase name }.reply (.flag (s.links.contains name))
  | .module => { s with modules := s.modules.erase name }.reply (.flag (s.modules.contains name))
  | .methodRef =>
    { s with methodRefs := s.methodRefs.erase name }.reply (.flag (s.methodRefs.contains name))
  | .table => { s with tables := s.tables.erase name }.reply (.flag (s.tables.contains name))
  | .factory =>
    { s with factories := s.factories.erase name }.reply (.flag (s.factories.contains name))
  | .record => { s with records := s.records.erase name }.reply (.flag (s.records.contains name))

end Session

end AssemblyGraph
