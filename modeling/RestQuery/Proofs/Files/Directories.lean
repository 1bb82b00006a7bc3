import RestQuery.Proofs.Files.DiskLaws

/-!
# The files of a directory

A name that is joined to a path is looked up in the directory that the path
opens, whatever the name is (`names_join`). So a file can be written unless a
directory has its name (`Opens.write`), and writing it leaves the directory open
to the others (`Opens.put`). Empty names and dots stay where they are, so the
`steps` of a path say which directory it opens (`opens_iff`).
-/

namespace RestQuery

def IsFileName (name : String) : Prop := name ∉ ["", ".", ".."] ∧ '/' ∉ name.toList

instance (name : String) : Decidable (IsFileName name) := by unfold IsFileName; infer_instance

namespace Path

variable {p : Path} {name : String}

/-- The names that lead to the directory in which joined names are. -/
def front (p : Path) : List String :=
  if p.text = "" then []
  else if p.text.toList.getLast? = some '/' then p.names.dropLast
  else p.names

theorem not_isAbsolute_name (h : IsFileName name) : ¬(Path.mk name).IsAbsolute := by
  intro hslash
  exact h.2 (List.mem_of_mem_head? hslash)

theorem names_slash (text : String) (h : '/' ∉ name.toList) :
    (Path.mk (text ++ "/" ++ name)).names = (Path.mk text).names ++ [name] := by
  have hname : name.toList.splitOn '/' = [name.toList] :=
    (Text.splitOn_eq_iff (by simp)).mpr ⟨by simp, by simpa using h⟩
  have htext : (text ++ "/" ++ name).toList = text.toList ++ '/' :: name.toList := by simp
  rw [names, names, htext, List.splitOn_eq_splitOnP, List.splitOnP_append_cons _ _ (by simp),
    ← List.splitOn_eq_splitOnP, ← List.splitOn_eq_splitOnP, hname]
  simp

theorem exists_before_slash (h : p.text.toList.getLast? = some '/') :
    ∃ before, p.text = before ++ "/" ∧ p.names = (Path.mk before).names ++ [""] := by
  obtain ⟨cs, hcs⟩ := List.getLast?_eq_some_iff.mp h
  have htext : p.text = .ofList cs ++ "/" := String.toList_inj.mp (by simp [hcs])
  refine ⟨.ofList cs, htext, ?_⟩
  have hempty : '/' ∉ "".toList := by simp
  rw [← names_slash (.ofList cs) hempty, String.append_empty, ← htext]

theorem names_join (h : IsFileName name) : (p.join name).names = p.front ++ [name] := by
  unfold join front
  rw [if_neg (not_isAbsolute_name h)]
  by_cases hempty : p.text = ""
  · have hname : name.toList.splitOn '/' = [name.toList] :=
      (Text.splitOn_eq_iff (by simp)).mpr ⟨by simp, by simpa using h.2⟩
    simp [hempty, names, hname]
  · by_cases hslash : p.text.toList.getLast? = some '/'
    · obtain ⟨before, hbefore, hp⟩ := exists_before_slash hslash
      rw [if_pos (.inr hslash), if_neg hempty, if_pos hslash, hp, hbefore, names_slash before h.2,
        List.dropLast_concat]
    · rw [if_neg (by simp [hempty, hslash]), if_neg hempty, if_neg hslash, names_slash _ h.2]

theorem isAbsolute_join (h : IsFileName name) : (p.join name).IsAbsolute ↔ p.IsAbsolute := by
  unfold join
  rw [if_neg (not_isAbsolute_name h)]
  by_cases hempty : p.text = ""
  · have hname := not_isAbsolute_name h
    simp only [IsAbsolute] at hname
    simp [IsAbsolute, hempty, hname]
  · have hne : p.text.toList ≠ [] := by simpa using hempty
    split <;> simp [IsAbsolute, List.head?_append_of_ne_nil _ hne]

theorem text_join_ne (h : IsFileName name) : (p.join name).text ≠ "" := by
  have hname : name ≠ "" := by
    rintro rfl
    exact h.1 List.mem_cons_self
  unfold join
  rw [if_neg (not_isAbsolute_name h)]
  split <;> simp [hname]

-- ---------------------------------------------------------------------------
-- Steps
-- ---------------------------------------------------------------------------

def isStep (name : String) : Bool := name ≠ "" ∧ name ≠ "."

def steps (p : Path) : List String := p.names.filter isStep

theorem steps_front (p : Path) : p.front.filter isStep = p.steps := by
  unfold front
  split
  next hempty =>
    have hnames : p.names = [""] := by simp [names, hempty]
    simp [steps, hnames, isStep]
  next =>
    split
    next hslash =>
      obtain ⟨before, -, hnames⟩ := exists_before_slash hslash
      simp [steps, hnames, isStep]
    next => rfl

/-- Slashes at the end add no step. -/
theorem steps_trimEnd (p : Path) : (Text.trimEnd (· = "") p.names).filter isStep = p.steps := by
  have hend : (Text.endRun (· = "") p.names).filter isStep = [] := by
    refine List.filter_eq_nil_iff.mpr fun name hname => ?_
    obtain rfl : name = "" := by simpa using Text.of_mem_endRun name hname
    simp [isStep]
  have hnames := congrArg (List.filter isStep) (Text.trimEnd_append_endRun (· = "") p.names)
  rwa [List.filter_append, hend, List.append_nil] at hnames

theorem steps_of_last {last : String} (h : (Text.trimEnd (· = "") p.names).getLast? = some last)
    (hdots : last ∉ [".", ".."]) :
    last ∉ ["", ".", ".."] ∧
      p.steps = (Text.trimEnd (· = "") p.names).dropLast.filter isStep ++ [last] := by
  have hempty : last ≠ "" := by simpa using Text.not_of_getLast?_trimEnd last h
  have hdot : last ≠ "." := fun hdot => hdots (by simp [hdot])
  refine ⟨by simpa [hempty] using hdots, ?_⟩
  obtain ⟨front, hfront⟩ := List.getLast?_eq_some_iff.mp h
  rw [← p.steps_trimEnd, hfront, List.filter_append, List.dropLast_concat]
  simp [isStep, hempty, hdot]

theorem step_ne {step : String} (h : step ∈ p.steps) :
    step ≠ "" ∧ step ≠ "." ∧ '/' ∉ step.toList := by
  obtain ⟨hname, hstep⟩ := List.mem_filter.mp h
  obtain ⟨cs, hcs, rfl⟩ := List.mem_map.mp hname
  have hslash := Text.not_mem_of_mem_splitOn hcs
  simp only [isStep, decide_eq_true_eq] at hstep
  exact ⟨hstep.1, hstep.2, by simpa using hslash⟩

def ofSteps (p : Path) (steps : List String) : Path :=
  ⟨(if p.IsAbsolute then "/" else "") ++ "/".intercalate steps⟩

theorem names_ofSteps {front : List String} (hne : front ≠ []) (h : front <+: p.steps) :
    (p.ofSteps front).names = if p.IsAbsolute then "" :: front else front := by
  have hslash : ∀ step ∈ front, '/' ∉ step.toList := fun step hstep => (step_ne (h.mem hstep)).2.2
  obtain ⟨first, rest, rfl⟩ := List.exists_cons_of_ne_nil hne
  by_cases habs : p.IsAbsolute
  · have htext : (p.ofSteps (first :: rest)).text = "/".intercalate ("" :: first :: rest) := by
      rw [ofSteps, if_pos habs, String.intercalate_cons_cons, String.empty_append]
    rw [names, htext, if_pos habs]
    exact Text.map_splitOn_intercalate rfl (by simp) (by simpa using hslash)
  · rw [names, ofSteps, if_neg habs, if_neg habs, String.empty_append]
    exact Text.map_splitOn_intercalate rfl hne hslash

theorem steps_ofSteps {front : List String} (hne : front ≠ []) (h : front <+: p.steps) :
    (p.ofSteps front).steps = front := by
  have hfront : front.filter isStep = front := by
    refine List.filter_eq_self.mpr fun step hstep => ?_
    have hstep := step_ne (h.mem hstep)
    simp [isStep, hstep]
  rw [steps, names_ofSteps hne h]
  split
  · rw [List.filter_cons_of_neg (by simp [isStep]), hfront]
  · exact hfront

theorem isAbsolute_ofSteps {front : List String} (hne : front ≠ []) (h : front <+: p.steps) :
    (p.ofSteps front).IsAbsolute ↔ p.IsAbsolute := by
  obtain ⟨first, rest, rfl⟩ := List.exists_cons_of_ne_nil hne
  obtain ⟨hempty, -, hslash⟩ := step_ne (h.mem List.mem_cons_self)
  obtain ⟨c, cs, hfirst⟩ := List.exists_cons_of_ne_nil (show first.toList ≠ [] by simpa using hempty)
  have hc : c ≠ '/' := by
    rintro rfl
    simp [hfirst] at hslash
  have hhead : ("/".intercalate (first :: rest)).toList.head? = some c := by
    cases rest <;> simp [String.intercalate_cons_cons, hfirst]
  by_cases habs : p.IsAbsolute
  · refine iff_of_true ?_ habs
    rw [IsAbsolute, ofSteps, if_pos habs, String.toList_append]
    rfl
  · refine iff_of_false ?_ habs
    rw [IsAbsolute, ofSteps, if_neg habs, String.empty_append, hhead]
    simpa using hc

theorem exists_of_mem_above {q : Path} (h : q ∈ p.above) :
    ∃ front, front ≠ [] ∧ front <+: p.steps ∧ q = p.ofSteps front := by
  obtain ⟨n, hn, rfl⟩ := List.mem_map.mp h
  have hlength : n < p.steps.dropLast.length := List.mem_range.mp (List.mem_reverse.mp hn)
  refine ⟨p.steps.dropLast.take (n + 1), ?_, ?_, rfl⟩
  · intro hnil
    have hzero := congrArg List.length hnil
    rw [List.length_take, List.length_nil] at hzero
    omega
  · exact (List.take_prefix _ _).trans (List.dropLast_prefix _)

example : (mk "/a//b/./c/").above = [⟨"/a/b"⟩, ⟨"/a"⟩] := by decide

end Path

namespace Disk

variable {d : Disk} {p : Path} {parent location : List String} {name : String} {e : FileEntry}

theorem start_join (h : IsFileName name) : d.start (p.join name) = d.start p := by
  simp only [start, Path.isAbsolute_join h]

structure Opens (d : Disk) (p : Path) (parent : List String) : Prop where
  follow : d.follow (d.start p) p.front = .ok parent
  directory : d.at? parent = some .directory

namespace Opens

theorem put (h : d.Opens p parent) (hfree : d.at? location ≠ some .directory) :
    (d.put location e).Opens p parent := by
  have hne : parent ≠ location := by
    rintro rfl
    exact hfree h.directory
  refine ⟨follow_put h.follow hfree, ?_⟩
  rw [at?_put_of_ne hne, h.directory]

theorem follow_join (h : d.Opens p parent) (hname : IsFileName name) :
    d.follow (d.start (p.join name)) (p.join name).names = d.follow parent [name] := by
  rw [start_join hname, Path.names_join hname, follow_append, h.follow, ok_bind]

theorem locate (h : d.Opens p parent) (hname : IsFileName name)
    (hsome : (d.at? (parent ++ [name])).isSome) : d.locate (p.join name) = .ok (parent ++ [name]) := by
  rw [Disk.locate, if_neg (Path.text_join_ne hname), h.follow_join hname]
  exact follow_name h.directory hname.1 hsome

theorem look (h : d.Opens p parent) (hname : IsFileName name)
    (he : d.at? (parent ++ [name]) = some e) : d.look (p.join name) = .ok e := by
  rw [Disk.look, h.locate hname (by rw [he]; rfl), ok_bind, he]

theorem look_none (h : d.Opens p parent) (hname : IsFileName name)
    (hnone : d.at? (parent ++ [name]) = none) : d.look (p.join name) = .error .noEntry := by
  rw [Disk.look, Disk.locate, if_neg (Path.text_join_ne hname), h.follow_join hname,
    follow_missing h.directory hname.1 hnone, error_bind]

theorem isOk_look (h : d.Opens p parent) (hname : IsFileName name) :
    (d.look (p.join name)).isOk = (d.at? (parent ++ [name])).isSome := by
  cases he : d.at? (parent ++ [name]) with
  | none =>
    rw [h.look_none hname he]
    rfl
  | some e =>
    rw [h.look hname he]
    rfl

theorem write (h : d.Opens p parent) (hname : IsFileName name) (content : List UInt8) :
    d.write (p.join name) content =
      if d.at? (parent ++ [name]) = some .directory then .error .isDirectory
      else .ok (d.put (parent ++ [name]) (.file content)) := by
  have hplace : d.place (d.start p) p.front name = .ok (parent ++ [name]) := by
    rw [place, h.follow, ok_bind, h.directory]
  rw [Disk.write, if_neg (Path.text_join_ne hname), start_join hname, Path.names_join hname,
    List.getLast?_concat, List.dropLast_concat, Option.getD_some, if_neg hname.1, hplace, ok_bind]

end Opens

theorem opens_of_write {content : List UInt8} {after : Disk} (hname : IsFileName name)
    (h : d.write (p.join name) content = .ok after) :
    ∃ parent, d.Opens p parent ∧ d.at? (parent ++ [name]) ≠ some .directory ∧
      after = d.put (parent ++ [name]) (.file content) := by
  obtain ⟨names, last, parent, -, hnames, -, hfollow, hdir, hfree, rfl⟩ := write_ok h
  rw [Path.names_join hname] at hnames
  obtain ⟨rfl, hlast⟩ := List.append_inj' hnames rfl
  obtain rfl := List.singleton_inj.mp hlast
  rw [start_join hname] at hfollow
  exact ⟨parent, ⟨hfollow, hdir⟩, hfree, rfl⟩

-- ---------------------------------------------------------------------------
-- Following the steps
-- ---------------------------------------------------------------------------

variable {l names found : List String}

theorem toward_of_not_isStep (h : ¬Path.isStep name) : toward l name = l := by
  rw [toward, if_pos]
  simpa [Path.isStep, Decidable.or_iff_not_imp_left] using h

theorem not_isStep_dots (h : ¬Path.isStep name) : ¬name ∉ ["", ".", ".."] := by
  simp only [Path.isStep, decide_eq_true_eq, not_and_or, not_not] at h
  rcases h with rfl | rfl <;> simp

theorem follow_steps (h : d.follow l names = .ok found) :
    d.follow l (names.filter Path.isStep) = .ok found := by
  induction names generalizing l with
  | nil => exact h
  | cons name names ih =>
    obtain ⟨hl, hthere, hrest⟩ := follow_cons_ok.mp h
    by_cases hstep : Path.isStep name
    · rw [List.filter_cons_of_pos hstep]
      exact follow_cons_ok.mpr ⟨hl, hthere, ih hrest⟩
    · rw [List.filter_cons_of_neg hstep]
      rw [toward_of_not_isStep hstep] at hrest
      exact ih hrest

theorem directory_of_follow (h : d.follow l names = .ok found)
    (hfound : d.at? found = some .directory) : d.at? l = some .directory := by
  cases names with
  | nil =>
    cases h
    exact hfound
  | cons name names => exact (follow_cons_ok.mp h).1

/-- To stay where one is takes a directory. -/
theorem follow_of_steps (h : d.follow l (names.filter Path.isStep) = .ok found)
    (hfound : d.at? found = some .directory) : d.follow l names = .ok found := by
  induction names generalizing l with
  | nil => exact h
  | cons name names ih =>
    by_cases hstep : Path.isStep name
    · rw [List.filter_cons_of_pos hstep] at h
      obtain ⟨hl, hthere, hrest⟩ := follow_cons_ok.mp h
      exact follow_cons_ok.mpr ⟨hl, hthere, ih hrest⟩
    · rw [List.filter_cons_of_neg hstep] at h
      refine follow_cons_ok.mpr ⟨directory_of_follow h hfound, ?_, ?_⟩
      · exact fun hname => absurd hname (not_isStep_dots hstep)
      · rw [toward_of_not_isStep hstep]
        exact ih h

theorem opens_iff : d.Opens p parent ↔
    d.follow (d.start p) p.steps = .ok parent ∧ d.at? parent = some .directory := by
  rw [← Path.steps_front]
  exact ⟨fun h => ⟨follow_steps h.follow, h.directory⟩, fun h => ⟨follow_of_steps h.1 h.2, h.2⟩⟩

theorem Opens.unique {parent' : List String} (h : d.Opens p parent) (h' : d.Opens p parent') :
    parent = parent' :=
  Except.ok.inj (h.follow.symm.trans h'.follow)

theorem opens_of_look (hname : IsFileName name) (h : d.look (p.join name) = .ok e) :
    ∃ parent, d.Opens p parent ∧ d.at? (parent ++ [name]) = some e := by
  obtain ⟨location, hlocate, he⟩ := bind_ok.mp h
  rw [locate, if_neg (Path.text_join_ne hname), start_join hname, Path.names_join hname,
    follow_append] at hlocate
  obtain ⟨parent, hparent, hlast⟩ := bind_ok.mp hlocate
  obtain ⟨hdir, -, hlast⟩ := follow_cons_ok.mp hlast
  rw [toward_name hname.1] at hlast
  cases hlast
  refine ⟨parent, ⟨hparent, hdir⟩, ?_⟩
  split at he
  next hat => exact Except.ok.inj he ▸ hat
  next => cases he

end Disk

end RestQuery
