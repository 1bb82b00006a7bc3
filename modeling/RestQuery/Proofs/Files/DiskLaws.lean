import RestQuery.Files.Disk
import RestQuery.Proofs.Outcome

/-!
# What a disk holds after a write

Names are followed one by one, through directories (`follow_cons_ok`), so they
lead where they led before if the directories remain (`follow_mono`). A write
changes one location, and that is no directory's (`follow_put`): the path that
was written leads to what was written (`look_of_write`).
-/

namespace RestQuery.Disk

variable {d : Disk} {location : List String} {e : FileEntry}

-- ---------------------------------------------------------------------------
-- One location
-- ---------------------------------------------------------------------------

theorem at?_put_self (h : location ≠ []) : (d.put location e).at? location = some e := by
  simp [at?, put, h]

theorem at?_put_of_ne {l : List String} (h : l ≠ location) :
    (d.put location e).at? l = d.at? l := by
  simp [at?, put, h]

theorem file?_eq_some {content : List UInt8} :
    d.file? location = some content ↔ d.at? location = some (.file content) := by
  unfold file?
  split <;> simp_all

theorem isSome_at?_put {l : List String} (h : (d.at? l).isSome) :
    ((d.put location e).at? l).isSome := by
  by_cases hl : l = location
  · by_cases hroot : location = []
    · simp [at?, hl, hroot]
    · rw [hl, at?_put_self hroot]
      rfl
  · rwa [at?_put_of_ne hl]

-- ---------------------------------------------------------------------------
-- Names
-- ---------------------------------------------------------------------------

theorem follow_append (d : Disk) (l names more : List String) :
    d.follow l (names ++ more) = d.follow l names >>= fun l => d.follow l more := by
  induction names generalizing l with
  | nil => rfl
  | cons name names ih =>
    rw [List.cons_append, follow, follow]
    split
    · rfl
    · rfl
    · split
      · exact ih l
      · split
        · exact ih l.dropLast
        · split
          · exact ih (l ++ [name])
          · rfl

def toward (l : List String) (name : String) : List String :=
  if name = "" ∨ name = "." then l
  else if name = ".." then l.dropLast
  else l ++ [name]

theorem toward_name {l : List String} {name : String} (h : name ∉ ["", ".", ".."]) :
    toward l name = l ++ [name] := by
  simp only [List.mem_cons, List.not_mem_nil, or_false, not_or] at h
  simp [toward, h]

theorem follow_cons_ok {l names found : List String} {name : String} :
    d.follow l (name :: names) = .ok found ↔
      d.at? l = some .directory ∧
      (name ∉ ["", ".", ".."] → (d.at? (l ++ [name])).isSome) ∧
      d.follow (toward l name) names = .ok found := by
  rw [follow, toward]
  cases d.at? l with
  | none => simp
  | some e =>
    cases e with
    | file content => simp
    | directory =>
      by_cases hdot : name = "" ∨ name = "."
      · rcases hdot with rfl | rfl <;> simp
      · by_cases hup : name = ".."
        · simp [hup]
        · obtain ⟨hempty, hdot⟩ := not_or.mp hdot
          by_cases hthere : (d.at? (l ++ [name])).isSome <;> simp [hempty, hdot, hup, hthere]

/-- Names lead where they led before if directories remain, and what is there. -/
theorem follow_mono {after : Disk} {l names found : List String}
    (hdir : ∀ l, d.at? l = some .directory → after.at? l = some .directory)
    (hsome : ∀ l, (d.at? l).isSome → (after.at? l).isSome) (h : d.follow l names = .ok found) :
    after.follow l names = .ok found := by
  induction names generalizing l with
  | nil => exact h
  | cons name names ih =>
    rw [follow_cons_ok] at h ⊢
    obtain ⟨hl, hthere, hrest⟩ := h
    exact ⟨hdir l hl, fun hname => hsome _ (hthere hname), ih hrest⟩

theorem follow_put {l names found : List String} (h : d.follow l names = .ok found)
    (hfree : d.at? location ≠ some .directory) :
    (d.put location e).follow l names = .ok found := by
  refine follow_mono (fun l hl => ?_) (fun l => isSome_at?_put) h
  have hne : l ≠ location := by
    rintro rfl
    exact hfree hl
  rw [at?_put_of_ne hne, hl]

theorem follow_one {l : List String} {name : String} (hl : d.at? l = some .directory)
    (hthere : name ∉ ["", ".", ".."] → (d.at? (l ++ [name])).isSome) :
    d.follow l [name] = .ok (toward l name) :=
  follow_cons_ok.mpr ⟨hl, hthere, rfl⟩

theorem follow_name {parent : List String} {name : String} (hparent : d.at? parent = some .directory)
    (hname : name ∉ ["", ".", ".."]) (hsome : (d.at? (parent ++ [name])).isSome) :
    d.follow parent [name] = .ok (parent ++ [name]) := by
  rw [follow_one hparent fun _ => hsome, toward_name hname]

theorem follow_missing {parent : List String} {name : String}
    (hparent : d.at? parent = some .directory) (hname : name ∉ ["", ".", ".."])
    (hnone : d.at? (parent ++ [name]) = none) : d.follow parent [name] = .error .noEntry := by
  have hdots : ¬(name = "" ∨ name = ".") ∧ name ≠ ".." := by
    simpa [and_assoc, not_or] using hname
  rw [follow, hparent]
  simp [hdots, hnone]

theorem place_ok {start names place : List String} {last : String}
    (h : d.place start names last = .ok place) :
    ∃ parent, d.follow start names = .ok parent ∧ d.at? parent = some .directory ∧
      place = parent ++ [last] := by
  obtain ⟨parent, hparent, hplace⟩ := bind_ok.mp h
  refine ⟨parent, hparent, ?_⟩
  split at hplace
  next hdir => exact ⟨hdir, (Except.ok.inj hplace).symm⟩
  next => cases hplace
  next => cases hplace

-- ---------------------------------------------------------------------------
-- Writing
-- ---------------------------------------------------------------------------

theorem write_ok {p : Path} {content : List UInt8} {after : Disk}
    (h : d.write p content = .ok after) :
    ∃ names last parent, p.text ≠ "" ∧ p.names = names ++ [last] ∧ last ∉ ["", ".", ".."] ∧
      d.follow (d.start p) names = .ok parent ∧ d.at? parent = some .directory ∧
      d.at? (parent ++ [last]) ≠ some .directory ∧
      after = d.put (parent ++ [last]) (.file content) := by
  rw [write] at h
  split at h
  next => cases h
  next htext =>
    split at h
    next => cases h
    next hlast =>
      obtain ⟨location, hplace, hput⟩ := bind_ok.mp h
      obtain ⟨parent, hparent, hdir, rfl⟩ := place_ok hplace
      split at hput
      next => cases hput
      next hfree =>
        have hne : p.names ≠ [] := by
          intro hnil
          rw [hnil] at hlast
          exact hlast List.mem_cons_self
        have hnames : p.names = p.names.dropLast ++ [p.names.getLast?.getD ""] := by
          rw [List.getLast?_eq_some_getLast hne]
          exact (List.dropLast_concat_getLast hne).symm
        exact ⟨_, _, parent, htext, hnames, hlast, hparent, hdir, hfree, (Except.ok.inj hput).symm⟩

theorem read_of_look {p : Path} {content : List UInt8} (h : d.look p = .ok (.file content)) :
    d.read p = .ok content := by
  rw [read, h]
  rfl

/-- What was written stands at the path it was written to. -/
theorem look_of_write {p : Path} {content : List UInt8} {after : Disk}
    (h : d.write p content = .ok after) : after.look p = .ok (.file content) := by
  obtain ⟨names, last, parent, htext, hnames, hlast, hparent, hdir, hfree, rfl⟩ := write_ok h
  have hne : parent ≠ parent ++ [last] := by simp
  have hat : (d.put (parent ++ [last]) (.file content)).at? (parent ++ [last]) =
      some (.file content) := at?_put_self (by simp)
  have hlocate : (d.put (parent ++ [last]) (.file content)).locate p = .ok (parent ++ [last]) := by
    rw [locate, if_neg htext, hnames, follow_append]
    change (d.put (parent ++ [last]) (.file content)).follow (d.start p) names >>= _ = _
    rw [follow_put hparent hfree, ok_bind]
    refine follow_name ?_ hlast ?_
    · rw [at?_put_of_ne hne, hdir]
    · rw [hat]
      rfl
  rw [look, hlocate, ok_bind, hat]

end RestQuery.Disk
