import RestQuery.Proofs.Toml.Lines

/-!
# Documents of records

Statements about the elements of an array of tables do to the last of them what
the same statements without the array's key do to a document of its own
(`add?_under`). So a list of records is made by what makes one record, however
deep it stands (`makes_records`).
-/

namespace RestQuery.Toml

namespace Table

variable {key : String} {before : Table}

theorem alter?_append (h : key ∉ before.map Prod.fst) (f : Option Node → Option Node) (n : Node)
    (after : Table) :
    alter? key f (before ++ (key, n) :: after) =
      (f (some n)).map fun n => before ++ (key, n) :: after := by
  induction before with
  | nil => simp [alter?]
  | cons e before ih =>
    rw [List.map_cons, List.mem_cons, not_or] at h
    rw [List.cons_append, alter?, if_neg (Ne.symm h.1), ih h.2, Option.map_map]
    rfl

theorem alter?_new (h : key ∉ before.map Prod.fst) (f : Option Node → Option Node) :
    alter? key f before = (f none).map fun n => before ++ [(key, n)] := by
  induction before with
  | nil => rfl
  | cons e before ih =>
    rw [List.map_cons, List.mem_cons, not_or] at h
    rw [alter?, if_neg (Ne.symm h.1), ih h.2, Option.map_map]
    rfl

theorem within?_last (h : key ∉ before.map Prod.fst) (via : Origin)
    (f : Origin → Table → Option Table) (path : List String) (origin : Origin)
    (elements : List Table) (t : Table) :
    within? via f (key :: path) origin (before ++ [(key, .tables (elements ++ [t]))]) =
      (within? via f path .header t).map fun t => before ++ [(key, .tables (elements ++ [t]))] := by
  rw [within?, alter?_append h]
  simp only [List.getLast?_append, List.getLast?_singleton, Option.some_or, List.dropLast_concat,
    Option.map_map]
  rfl

end Table

def Statement.under (key : String) : Statement → Statement
  | .entry k value => .entry k value
  | .header k => .header (key :: k.1, k.2)
  | .element k => .element (key :: k.1, k.2)

namespace Document

def nest (before : Table) (key : String) (elements : List Table) (d : Document) : Document :=
  ⟨before ++ [(key, .tables (elements ++ [d.root]))], key :: d.current⟩

variable {key : String} {before : Table}

theorem add?_under (h : key ∉ before.map Prod.fst) (elements : List Table) (d : Document)
    (s : Statement) :
    (nest before key elements d).add? (s.under key) = (d.add? s).map (nest before key elements) := by
  cases s with
  | entry k value =>
    simp only [Statement.under, add?, nest, Table.within?_last h, Option.map_map]
    rfl
  | header k =>
    simp only [Statement.under, add?, nest, Table.openTable?, Table.within?_last h, Option.map_map]
    rfl
  | element k =>
    simp only [Statement.under, add?, nest, Table.openElement?, Table.within?_last h, Option.map_map]
    rfl

theorem foldlM_under (h : key ∉ before.map Prod.fst) (elements : List Table) (d : Document)
    (statements : List Statement) :
    (statements.map (Statement.under key)).foldlM add? (nest before key elements d) =
      (statements.foldlM add? d).map (nest before key elements) := by
  induction statements generalizing d with
  | nil => rfl
  | cons s statements ih =>
    rw [List.map_cons, List.foldlM_cons, List.foldlM_cons, add?_under h]
    cases d.add? s with
    | none => rfl
    | some d => exact ih d

end Document

-- ---------------------------------------------------------------------------
-- Entries and records
-- ---------------------------------------------------------------------------

/-- The statements of a document whose root is the table. -/
def Makes (statements : List Statement) (t : Table) : Prop :=
  ∃ current, statements.foldlM Document.add? {} = some ⟨t, current⟩

def Statement.entries (t : Table) : List Statement := t.map fun e => .entry ([], e.1) e.2

def Statement.records {α : Type} (key : String) (body : α → List Statement) (list : List α) :
    List Statement :=
  list.flatMap fun a => .element ([], key) :: (body a).map (under key)

/-- The entries that records make: none if there are none of them. -/
def Table.records (key : String) : List Table → Table
  | [] => []
  | t :: elements => [(key, .tables (t :: elements))]

variable {key : String} {before : Table}

theorem add?_entry (h : key ∉ before.map Prod.fst) (value : Node) :
    Document.add? ⟨before, []⟩ (.entry ([], key) value) = some ⟨before ++ [(key, value)], []⟩ := by
  have hdefine : Table.define? [] key value before = some (before ++ [(key, value)]) := by
    rw [Table.define?, Table.within?, if_neg (by simp), Table.alter?_new h]
    rfl
  rw [Document.add?, Table.within?, hdefine]
  rfl

theorem foldlM_entries (before : Table) {entries : Table}
    (h : ((before ++ entries).map Prod.fst).Nodup) :
    (Statement.entries entries).foldlM Document.add? ⟨before, []⟩ =
      some ⟨before ++ entries, []⟩ := by
  induction entries generalizing before with
  | nil => simp [Statement.entries]
  | cons e entries ih =>
    have hnew : e.1 ∉ before.map Prod.fst := by
      rw [List.map_append, List.map_cons, List.nodup_append] at h
      intro hmem
      exact h.2.2 e.1 hmem e.1 List.mem_cons_self rfl
    rw [List.append_cons] at h
    rw [Statement.entries, List.map_cons, List.foldlM_cons, add?_entry hnew]
    exact (ih (before ++ [e]) h).trans (by simp)

theorem add?_element (h : key ∉ before.map Prod.fst) (elements : List Table)
    (current : List String) :
    Document.add? ⟨before ++ Table.records key elements, current⟩ (.element ([], key)) =
      some (Document.nest before key elements {}) := by
  rw [Document.add?, Table.openElement?, Table.within?]
  cases elements with
  | nil =>
    rw [Table.records, List.append_nil, Table.alter?_new h]
    rfl
  | cons t elements =>
    rw [Table.records, Table.alter?_append h]
    rfl

/-- One record after another: each opens an element and makes its table there. -/
theorem foldlM_records {α : Type} {body : α → List Statement} {table : α → Table}
    (hbody : ∀ a, Makes (body a) (table a)) (h : key ∉ before.map Prod.fst) (list : List α)
    (elements : List Table) (current : List String) :
    ∃ current', (Statement.records key body list).foldlM Document.add?
        ⟨before ++ Table.records key elements, current⟩ =
      some ⟨before ++ Table.records key (elements ++ list.map table), current'⟩ := by
  induction list generalizing elements current with
  | nil => exact ⟨current, by simp [Statement.records]⟩
  | cons a list ih =>
    obtain ⟨inner, hinner⟩ := hbody a
    have hnest : Document.nest before key elements ⟨table a, inner⟩ =
        ⟨before ++ Table.records key (elements ++ [table a]), key :: inner⟩ := by
      cases elements <;> rfl
    obtain ⟨current', hrest⟩ := ih (elements ++ [table a]) (key :: inner)
    refine ⟨current', ?_⟩
    rw [Statement.records, List.flatMap_cons, List.cons_append, List.foldlM_cons, add?_element h,
      Option.bind_eq_bind, Option.bind_some, List.foldlM_append, Document.foldlM_under h, hinner, Option.map_some,
      Option.bind_eq_bind, Option.bind_some, hnest, ← Statement.records, hrest]
    simp

theorem makes_records {α : Type} {body : α → List Statement} {table : α → Table}
    (hbody : ∀ a, Makes (body a) (table a)) {entries : Table} {list : List α}
    (hentries : (entries.map Prod.fst).Nodup) (h : list ≠ [] → key ∉ entries.map Prod.fst) :
    Makes (Statement.entries entries ++ Statement.records key body list)
      (entries ++ Table.records key (list.map table)) := by
  have hfirst := foldlM_entries [] hentries
  cases list with
  | nil =>
    refine ⟨[], ?_⟩
    rw [Statement.records, List.flatMap_nil, List.append_nil, hfirst]
    simp [Table.records]
  | cons a list =>
    obtain ⟨current, hrecords⟩ := foldlM_records hbody (h (List.cons_ne_nil a list)) (a :: list) [] []
    refine ⟨current, ?_⟩
    rw [List.foldlM_append, hfirst]
    simpa [Table.records] using hrecords

-- ---------------------------------------------------------------------------
-- Texts
-- ---------------------------------------------------------------------------

theorem dropByteOrderMark_of_ne {c : Char} (h : c ≠ '\uFEFF') (cs : List Char) :
    Document.dropByteOrderMark (c :: cs) = c :: cs := by
  unfold Document.dropByteOrderMark
  split
  next heq => exact absurd (List.cons.inj heq).1 h
  next => rfl

theorem dropByteOrderMark_write {lines : List Line} (h : ∀ l ∈ lines, l.Writable) :
    Document.dropByteOrderMark (Line.write lines) = Line.write lines := by
  cases lines with
  | nil => rfl
  | cons l lines =>
    cases l with
    | entry key d =>
      obtain ⟨c, cs, hcs, hc⟩ := isBare_head (h _ List.mem_cons_self).1
      have hmark : c ≠ '\uFEFF' := by
        rintro rfl
        simp [isBareChar] at hc
      rw [Line.write, Line.chars, hcs]
      exact dropByteOrderMark_of_ne hmark _
    | element path => exact dropByteOrderMark_of_ne (c := '[') (by simp) _

/-- A written document is read back as what its statements make. -/
theorem parse?_write {lines : List Line} (h : ∀ l ∈ lines, l.Writable) {t : Table}
    (ht : Makes (lines.map Line.statement) t) :
    ∃ current, Document.parse? (.ofList (Line.write lines)) = some ⟨t, current⟩ := by
  obtain ⟨current, hcurrent⟩ := ht
  refine ⟨current, ?_⟩
  rw [Document.parse?, String.toList_ofList, dropByteOrderMark_write h, statements_write h]
  exact hcurrent

end RestQuery.Toml
