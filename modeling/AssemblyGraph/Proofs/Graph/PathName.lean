import AssemblyGraph.Proofs.Graph.FullName

/-!
Putting a full name together and taking it apart.

The first segment of a full name is the qualified name of the outermost type, and
one segment follows for each type further inwards. If no segment holds a slash, the
segments can be told from the full name, and if a simple name holds no dot, it and
its namespace can be told from the qualified name.
-/

namespace AssemblyGraph

/-! ### Qualified names -/

/-- A simple name after its namespace and a dot, or alone if the namespace is empty. -/
def qualified (namespaceName name : String) : String :=
  if namespaceName.isEmpty then name else namespaceName ++ "." ++ name

variable {namespaceName namespaceName' name name' : String}

@[simp] theorem qualified_empty (name : String) : qualified "" name = name := rfl

theorem qualified_of_ne (h : namespaceName ≠ "") (name : String) :
    qualified namespaceName name = namespaceName ++ "." ++ name := by
  rw [qualified, if_neg (mt String.isEmpty_iff.mp h)]

theorem toList_qualified_of_ne (h : namespaceName ≠ "") (name : String) :
    (qualified namespaceName name).toList = namespaceName.toList ++ '.' :: name.toList := by
  rw [qualified_of_ne h, String.append_assoc, String.toList_append, String.toList_append]
  rfl

theorem not_mem_qualified {c : Char} (hdot : c ≠ '.') (hnamespace : c ∉ namespaceName.toList)
    (hname : c ∉ name.toList) : c ∉ (qualified namespaceName name).toList := by
  by_cases hempty : namespaceName = ""
  · rwa [hempty, qualified_empty]
  · rw [toList_qualified_of_ne hempty]
    simp [hdot, hnamespace, hname]

/-- A text is cut at its last dot in one way only. -/
theorem append_dot_inj {before before' after after' : List Char} (hafter : '.' ∉ after)
    (hafter' : '.' ∉ after') (h : before ++ '.' :: after = before' ++ '.' :: after') :
    before = before' ∧ after = after' := by
  rcases List.append_eq_append_iff.mp h with ⟨between, rfl, hrest⟩ | ⟨between, rfl, hrest⟩
  · cases between with
    | nil => simpa using hrest
    | cons c between =>
        obtain ⟨rfl, rfl⟩ := List.cons.inj hrest
        simp at hafter
  · cases between with
    | nil => simpa using hrest.symm
    | cons c between =>
        obtain ⟨rfl, rfl⟩ := List.cons.inj hrest
        simp at hafter'

/-- Simple names without dots can be told from qualified names, and so can their
namespaces. -/
theorem qualified_inj (hname : '.' ∉ name.toList) (hname' : '.' ∉ name'.toList)
    (h : qualified namespaceName name = qualified namespaceName' name') :
    namespaceName = namespaceName' ∧ name = name' := by
  by_cases hempty : namespaceName = ""
  · by_cases hempty' : namespaceName' = ""
    · rw [hempty, hempty', qualified_empty, qualified_empty] at h
      exact ⟨hempty.trans hempty'.symm, h⟩
    · -- one side has a dot, and the other is a simple name
      have hlist := congrArg String.toList h
      rw [hempty, qualified_empty, toList_qualified_of_ne hempty'] at hlist
      simp [hlist] at hname
  · by_cases hempty' : namespaceName' = ""
    · have hlist := congrArg String.toList h
      rw [hempty', qualified_empty, toList_qualified_of_ne hempty] at hlist
      simp [← hlist] at hname'
    · have hlist := congrArg String.toList h
      rw [toList_qualified_of_ne hempty, toList_qualified_of_ne hempty'] at hlist
      obtain ⟨hnamespaces, hnames⟩ := append_dot_inj hname hname' hlist
      exact ⟨String.toList_inj.mp hnamespaces, String.toList_inj.mp hnames⟩

/-! ### Segments -/

/-- Segments without slashes can be told from the text that they are joined to. -/
theorem intercalate_slash_inj {segments segments' : List String}
    (hslash : ∀ s ∈ segments, '/' ∉ s.toList) (hslash' : ∀ s ∈ segments', '/' ∉ s.toList)
    (hne : segments ≠ []) (hne' : segments' ≠ [])
    (h : "/".intercalate segments = "/".intercalate segments') : segments = segments' := by
  have hsplit : ∀ l : List String, (∀ s ∈ l, '/' ∉ s.toList) → l ≠ [] →
      List.splitOn '/' ("/".intercalate l).toList = l.map String.toList := by
    intro l hl hne
    rw [String.toList_intercalate]
    exact List.splitOn_intercalate '/' (List.forall_mem_map.mpr hl) (mt List.map_eq_nil_iff.mp hne)
  have hlists := hsplit segments hslash hne
  rw [h, hsplit segments' hslash' hne'] at hlists
  exact (List.map_inj_right fun _ _ => String.toList_inj.mp).mp hlists.symm

namespace Graph

/-- The segments of the name of a chain, the outermost one first. -/
def segments : List TypeDecl → List String
  | [] => []
  | outermost :: inner => qualified outermost.namespaceName outermost.name :: inner.map (·.name)

theorem pathName_eq (path : List TypeDecl) : pathName path = "/".intercalate (segments path) := by
  cases path with
  | nil => rfl
  | cons outermost inner =>
      rw [pathName, segments, qualified]
      cases outermost.namespaceName.isEmpty with
      | true => rfl
      | false => exact String.intercalate_cons_append.symm

@[simp] theorem pathName_singleton (d : TypeDecl) :
    pathName [d] = qualified d.namespaceName d.name := by
  rw [pathName_eq]
  exact String.intercalate_singleton

variable {outer : List TypeDecl}

/-- One type further inwards adds a slash and its simple name. -/
theorem pathName_concat (hne : outer ≠ []) (d : TypeDecl) :
    pathName (outer ++ [d]) = pathName outer ++ "/" ++ d.name := by
  cases outer with
  | nil => exact absurd rfl hne
  | cons outermost inner =>
      have hsegments : segments (outermost :: inner ++ [d]) =
          segments (outermost :: inner) ++ [d.name] := by
        rw [List.cons_append, segments, segments, List.map_append, List.cons_append]
        rfl
      have hsome : segments (outermost :: inner) ≠ [] := List.cons_ne_nil _ _
      rw [pathName_eq, hsegments, String.intercalate_append_of_ne_nil hsome (List.cons_ne_nil _ _),
        String.intercalate_singleton, ← pathName_eq]

/-- A full name without a slash is the name of a chain of one type. -/
theorem eq_nil_of_slash_not_mem {d : TypeDecl} (h : '/' ∉ (pathName (outer ++ [d])).toList) :
    outer = [] := by
  cases outer with
  | nil => rfl
  | cons outermost inner =>
      rw [pathName_concat (List.cons_ne_nil _ _), String.toList_append, String.toList_append] at h
      simp at h

end Graph

end AssemblyGraph
