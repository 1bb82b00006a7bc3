import RestQuery.Proofs.Files.Actions
import RestQuery.Proofs.Toml.Documents
import RestQuery.Settings

/-!
# Schemas are read back

Each part of a schema is written as the statements that make its table
(`Schema.makes`) and read from that table as it was (`Schema.ofDocument?_table`).
So a written schema is read back as it is, up to the check of its names, and so
is a saved one.
-/

namespace RestQuery

open Toml (Node Table Statement Datum Line Makes Document)

-- ---------------------------------------------------------------------------
-- Tables
-- ---------------------------------------------------------------------------

def Relation.table (r : Relation) : Table :=
  [("name", (Datum.text r.name).node), ("relation_id", (Datum.text r.handle).node),
    ("kind", (Datum.text r.cardinality.name).node)]

def Edge.entries (e : Edge) : Table :=
  [("name", (Datum.text e.name).node), ("fields", (Datum.texts e.fields).node)]

def Edge.table (e : Edge) : Table :=
  e.entries ++ Table.records "relation" (e.relations.map Relation.table)

/-- An empty list of edges is an entry. -/
def Api.entries (a : Api) : Table :=
  ("version", (Datum.text a.version).node) ::
    if a.edges = [] then [("edge", (Datum.texts []).node)] else []

def Api.table (a : Api) : Table := a.entries ++ Table.records "edge" (a.edges.map Edge.table)

def Schema.entries (s : Schema) : Table :=
  if s.apis = [] then [("api", (Datum.texts []).node)] else []

def Schema.table (s : Schema) : Table := s.entries ++ Table.records "api" (s.apis.map Api.table)

-- ---------------------------------------------------------------------------
-- Statements
-- ---------------------------------------------------------------------------

def Relation.statements (r : Relation) : List Statement := Statement.entries r.table

def Edge.statements (e : Edge) : List Statement :=
  Statement.entries e.entries ++ Statement.records "relation" Relation.statements e.relations

def Api.statements (a : Api) : List Statement :=
  Statement.entries a.entries ++ Statement.records "edge" Edge.statements a.edges

def Schema.statements (s : Schema) : List Statement :=
  Statement.entries s.entries ++ Statement.records "api" Api.statements s.apis

theorem Relation.makes (r : Relation) : Makes r.statements r.table :=
  ⟨[], Toml.foldlM_entries [] (by simp [Relation.table])⟩

theorem Edge.makes (e : Edge) : Makes e.statements e.table :=
  Toml.makes_records Relation.makes (by simp [Edge.entries]) fun _ => by simp [Edge.entries]

theorem Api.makes (a : Api) : Makes a.statements a.table := by
  refine Toml.makes_records Edge.makes ?_ fun hne => ?_
  · unfold Api.entries
    split <;> simp
  · simp [Api.entries, hne]

theorem Schema.makes (s : Schema) : Makes s.statements s.table := by
  refine Toml.makes_records Api.makes ?_ fun hne => ?_
  · unfold Schema.entries
    split <;> simp
  · simp [Schema.entries, hne]

-- ---------------------------------------------------------------------------
-- Lines
-- ---------------------------------------------------------------------------

/-- Lines that are the statements of one record are, for a list, those of its records. -/
theorem map_statement_records {α : Type} {key : String} {lines : α → List Line}
    {body : α → List Statement} {f : Statement → Statement}
    (h : ∀ a, (lines a).map Line.statement =
      (Statement.element ([], key) :: (body a).map (Statement.under key)).map f) (list : List α) :
    (list.flatMap lines).map Line.statement = (Statement.records key body list).map f := by
  rw [Statement.records, List.map_flatMap, List.map_flatMap]
  exact congrArg list.flatMap (funext h)

theorem Relation.map_statement (r : Relation) :
    r.lines.map Line.statement =
      (Statement.element ([], "relation") :: r.statements.map (Statement.under "relation")).map
        (Statement.under "api" ∘ Statement.under "edge") := rfl

theorem Edge.map_statement (e : Edge) :
    e.lines.map Line.statement =
      (Statement.element ([], "edge") :: e.statements.map (Statement.under "edge")).map
        (Statement.under "api") := by
  rw [Edge.lines, List.map_append, map_statement_records Relation.map_statement, Edge.statements]
  simp only [List.map_cons, List.map_append, List.map_map]
  rfl

theorem Api.map_statement (a : Api) :
    a.lines.map Line.statement =
      (Statement.element ([], "api") :: a.statements.map (Statement.under "api")).map id := by
  rw [List.map_id, Api.lines, Api.statements, Api.entries]
  split
  next h =>
    rw [h]
    rfl
  next =>
    rw [List.map_append, map_statement_records Edge.map_statement, List.map_append]
    rfl

theorem Schema.map_statement (s : Schema) : s.lines.map Line.statement = s.statements := by
  rw [Schema.lines, Schema.statements, Schema.entries]
  split
  next h =>
    rw [h]
    rfl
  next =>
    rw [map_statement_records Api.map_statement, List.map_id]
    rfl

theorem isBare_keys :
    ∀ key ∈ ["api", "edge", "relation", "version", "name", "fields", "relation_id", "kind"],
      Toml.IsBare key := by
  simp [Toml.IsBare, Toml.isBareChar]

theorem writable_element {path : List String} (hne : path ≠ []) (hlength : path.length < 4)
    (h : path ⊆ ["api", "edge", "relation"]) : (Line.element path).Writable := by
  refine ⟨hne, Nat.lt_trans hlength (by simp [Toml.depthLimit]), fun key hkey => isBare_keys key ?_⟩
  exact List.mem_append_left ["version", "name", "fields", "relation_id", "kind"] (h hkey)

theorem Relation.lines_writable (r : Relation) : ∀ l ∈ r.lines, l.Writable := by
  simp only [Relation.lines, List.forall_mem_cons, List.not_mem_nil, false_imp_iff, implies_true,
    and_true]
  exact ⟨writable_element (by simp) (by simp) (by simp), ⟨isBare_keys _ (by simp), trivial⟩,
    ⟨isBare_keys _ (by simp), trivial⟩, ⟨isBare_keys _ (by simp), trivial⟩⟩

theorem Edge.lines_writable (e : Edge) : ∀ l ∈ e.lines, l.Writable := by
  simp only [Edge.lines, List.forall_mem_append, List.forall_mem_cons, List.not_mem_nil,
    false_imp_iff, implies_true, and_true, List.forall_mem_flatMap]
  exact ⟨⟨writable_element (by simp) (by simp) (by simp), ⟨isBare_keys _ (by simp), trivial⟩,
    ⟨isBare_keys _ (by simp), trivial⟩⟩, fun r _ => r.lines_writable⟩

theorem Api.lines_writable (a : Api) : ∀ l ∈ a.lines, l.Writable := by
  simp only [Api.lines, List.forall_mem_append, List.forall_mem_cons, List.not_mem_nil,
    false_imp_iff, implies_true, and_true]
  refine ⟨⟨writable_element (by simp) (by simp) (by simp), isBare_keys _ (by simp), trivial⟩, ?_⟩
  split
  next => exact List.forall_mem_singleton.mpr ⟨isBare_keys _ (by simp), trivial⟩
  next => exact List.forall_mem_flatMap.mpr fun e _ => e.lines_writable

theorem Schema.lines_writable (s : Schema) : ∀ l ∈ s.lines, l.Writable := by
  unfold Schema.lines
  split
  next => exact List.forall_mem_singleton.mpr ⟨isBare_keys _ (by simp), trivial⟩
  next => exact List.forall_mem_flatMap.mpr fun a _ => a.lines_writable

-- ---------------------------------------------------------------------------
-- Reading
-- ---------------------------------------------------------------------------

theorem mapM_map_of_some {α β : Type} {g : α → β} {f : β → Option α} (h : ∀ a, f (g a) = some a)
    (list : List α) : (list.map g).mapM f = some list := by
  induction list with
  | nil => rfl
  | cons a list ih =>
    rw [List.map_cons, List.mapM_cons, h, ih]
    rfl

theorem text?_node (s : String) : (Datum.text s).node.text? = some s := rfl

theorem list?_of_items {α : Type} {n list : Node} {name : String} {place : Nat}
    {read? : Node → Option α} {items : List Node} {as : List α}
    (hpart : n.part? name place = some (some list)) (hitems : list.items? = some items)
    (hread : items.mapM read? = some as) : n.list? name place read? = some as := by
  rw [Node.list?, hpart]
  simp [hitems, hread]

theorem lookup_records {key : String} {entries : Table} (h : key ∉ entries.map Prod.fst)
    (elements : List Table) :
    (entries ++ Table.records key elements).lookup key =
      if elements = [] then none else some (.tables elements) := by
  have hnone : entries.lookup key = none := by
    rw [List.lookup_eq_none_iff]
    rintro e he
    have hne : key ≠ e.1 := fun heq => h (heq ▸ List.mem_map_of_mem he)
    simp [hne]
  rw [List.lookup_append, hnone, Option.none_or]
  cases elements with
  | nil => rfl
  | cons t elements => rw [Table.records, List.lookup_cons_self, if_neg (List.cons_ne_nil t elements)]

theorem list?_records {α : Type} {key : String} {entries : Table} {table : α → Table}
    {read? : Node → Option α} (hread : ∀ a, read? (.table .header (table a)) = some a)
    (list : List α) (h : key ∉ entries.map Prod.fst) (place : Nat) :
    (Node.table .header (entries ++ Table.records key (list.map table))).list? key place read? =
      some list := by
  have hlookup := lookup_records h (list.map table)
  cases list with
  | nil =>
    rw [Node.list?, Node.part?, hlookup]
    rfl
  | cons a list =>
    rw [if_neg (by simp)] at hlookup
    have hmap := mapM_map_of_some (g := fun a => Node.table .header (table a)) hread (a :: list)
    refine list?_of_items (congrArg some hlookup) rfl ?_
    rw [List.map_map]
    exact hmap

theorem Relation.ofNode?_table (r : Relation) :
    Relation.ofNode? (.table .header r.table) = some r := by
  have hname : (Node.table .header r.table).required? "name" 0 = some (Datum.text r.name).node := rfl
  have hhandle : (Node.table .header r.table).required? "relation_id" 1 =
      some (Datum.text r.handle).node := rfl
  have hkind : (Node.table .header r.table).required? "kind" 2 =
      some (Datum.text r.cardinality.name).node := rfl
  have hcardinality : Cardinality.ofNode? (Datum.text r.cardinality.name).node =
      some r.cardinality := Cardinality.ofName?_name r.cardinality
  simp only [Relation.ofNode?, hname, hhandle, hkind, text?_node, hcardinality,
    Option.bind_eq_bind, Option.bind_some]
  rfl

theorem Edge.ofNode?_table (e : Edge) : Edge.ofNode? (.table .header e.table) = some e := by
  have hname : (Node.table .header e.table).required? "name" 0 = some (Datum.text e.name).node := rfl
  have hfields : (Node.table .header e.table).list? "fields" 1 Node.text? = some e.fields :=
    list?_of_items rfl rfl (mapM_map_of_some (f := Node.text?) text?_node e.fields)
  have hrelations : (Node.table .header e.table).list? "relation" 2 Relation.ofNode? =
      some e.relations :=
    list?_records Relation.ofNode?_table e.relations (by simp [Edge.entries]) 2
  rw [Edge.ofNode?, hname, hfields, hrelations]
  rfl

theorem Api.ofNode?_table (a : Api) : Api.ofNode? (.table .header a.table) = some a := by
  have hversion : (Node.table .header a.table).required? "version" 0 =
      some (Datum.text a.version).node := rfl
  have hedges : (Node.table .header a.table).list? "edge" 1 Edge.ofNode? = some a.edges := by
    by_cases h : a.edges = []
    · rw [Api.table, Api.entries, if_pos h, h]
      rfl
    · exact list?_records Edge.ofNode?_table a.edges (by simp [Api.entries, h]) 1
  rw [Api.ofNode?, hversion, hedges]
  rfl

theorem Schema.ofDocument?_table (s : Schema) (current : List String) :
    Schema.ofDocument? ⟨s.table, current⟩ = some s := by
  have hapis : (Node.table .header s.table).list? "api" 0 Api.ofNode? = some s.apis := by
    by_cases h : s.apis = []
    · rw [Schema.table, Schema.entries, if_pos h, h]
      rfl
    · exact list?_records Api.ofNode?_table s.apis (by simp [Schema.entries, h]) 0
  rw [Schema.ofDocument?, hapis]
  rfl

-- ---------------------------------------------------------------------------
-- Files
-- ---------------------------------------------------------------------------

theorem Schema.ofToml_write (s : Schema) : Schema.ofToml s.toToml = s.check := by
  have hmakes := s.makes
  rw [← s.map_statement] at hmakes
  obtain ⟨current, hparse⟩ := Toml.parse?_write s.lines_writable hmakes
  rw [Schema.ofToml, Schema.toToml, hparse, Option.bind_some, Schema.ofDocument?_table]

theorem Schema.load_on {text : String} {p : Path} {d : Disk}
    (h : d.look p = .ok (.file (Text.utf8 text.toList))) :
    (Schema.load p : Action (StateM Disk) Schema).on d = (Schema.ofToml text, d) := by
  rw [Schema.load, Action.on_bind, Action.on_fileExists, h]
  simp only [Except.isOk, Except.toBool, if_true]
  rw [Action.on_bind, Action.on_readText (Disk.read_of_look h)]
  exact Action.on_ofExcept (Schema.ofToml text) d

/-- A written schema is read back as it is, or refused for what is wrong with its names; and so is
a saved one, wherever it could be saved. -/
theorem Schema.load_save (s : Schema) :
    Schema.ofToml s.toToml = s.check ∧
      ∀ (p : Path) (d : Disk),
        (do s.save p; Schema.load p : Action (StateM Disk) Schema).on d =
          match d.write p (Text.utf8 s.toToml.toList) with
          | .ok after => (s.check, after)
          | .error fault => (.error (.file fault), d) := by
  refine ⟨s.ofToml_write, fun p d => ?_⟩
  rw [Action.on_bind, Schema.save, Action.writeText, Action.on_writeFile]
  cases h : d.write p (Text.utf8 s.toToml.toList) with
  | error fault => rfl
  | ok after =>
    simp only
    rw [Schema.load_on (Disk.look_of_write h), s.ofToml_write]

end RestQuery
