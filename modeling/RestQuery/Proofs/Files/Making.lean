import RestQuery.Proofs.Files.Effects

/-!
# Directories that are made

Making a path with all that is above it adds directories on the way of the path
and changes nothing else (`Gains`, `gains_makeDirs`). What the path leads to
afterwards, if it was there before, is what the path led to before
(`Gains.look`). This takes a path that is `Direct`: one that climbs out of a
missing directory leads nowhere before, and to what is there afterwards.
-/

namespace RestQuery.Disk

variable {d middle after : Disk} {p q : Path} {l names found location parent : List String}
  {name : String} {e : FileEntry}

-- ---------------------------------------------------------------------------
-- What is gained
-- ---------------------------------------------------------------------------

/-- Missing directories on the way of a path are there now, and all else is as it was. -/
structure Gains (p : Path) (d after : Disk) : Prop where
  workingDirectory : after.workingDirectory = d.workingDirectory
  atStart : after.at? (d.start p) = d.at? (d.start p)
  gained : ∀ l, after.at? l = d.at? l ∨
    d.at? l = none ∧ after.at? l = some .directory ∧
      ∃ front, front <+: p.steps ∧ after.follow (d.start p) front = .ok l

namespace Gains

theorem at? (h : d.Gains p after) (he : d.at? l = some e) : after.at? l = some e := by
  rcases h.gained l with hsame | ⟨hnone, -, -⟩
  · rw [hsame, he]
  · simp [hnone] at he

theorem at?_of_isSome (h : d.Gains p after) (hl : (d.at? l).isSome) : after.at? l = d.at? l := by
  obtain ⟨e, he⟩ := Option.isSome_iff_exists.mp hl
  rw [h.at? he, he]

theorem start (h : d.Gains p after) : after.start p = d.start p := by
  rw [Disk.start, Disk.start, h.workingDirectory]

theorem follow (h : d.Gains p after) (hfollow : d.follow l names = .ok found) :
    after.follow l names = .ok found :=
  follow_mono (fun _ => h.at?) (fun _ hl => by rwa [h.at?_of_isSome hl]) hfollow

theorem sameFiles (h : d.Gains p after) : d.SameFiles after := by
  intro l
  rcases h.gained l with hsame | ⟨hnone, hdir, -⟩
  · rw [file?, file?, hsame]
  · rw [file?, file?, hnone, hdir]

theorem refl (p : Path) (d : Disk) : d.Gains p d := ⟨rfl, rfl, fun _ => .inl rfl⟩

theorem trans (h : d.Gains p middle) (h' : middle.Gains p after) : d.Gains p after := by
  have hstart := h'.atStart
  rw [h.start] at hstart
  refine ⟨h'.workingDirectory.trans h.workingDirectory, hstart.trans h.atStart, fun l => ?_⟩
  rcases h'.gained l with hsame' | ⟨hnone', hdir', front, hfront, hfollow⟩
  · rcases h.gained l with hsame | ⟨hnone, hdir, front, hfront, hfollow⟩
    · exact .inl (hsame'.trans hsame)
    · exact .inr ⟨hnone, hsame'.trans hdir, front, hfront, h'.follow hfollow⟩
  · rcases h.gained l with hsame | ⟨-, hdir, -⟩
    · rw [h.start] at hfollow
      exact .inr ⟨hsame ▸ hnone', hdir', front, hfront, hfollow⟩
    · simp [hnone'] at hdir

end Gains

instance : IsPreorder Disk (Gains p) where
  refl := .refl p
  trans _ _ _ := .trans

-- ---------------------------------------------------------------------------
-- Making
-- ---------------------------------------------------------------------------

theorem makeDir_ok (h : d.makeDir p = .ok after) :
    ∃ location, location ≠ [] ∧ d.at? location = none ∧ after = d.put location .directory ∧
      d.at? (d.start p) = some .directory ∧ after.follow (d.start p) p.steps = .ok location := by
  simp only [makeDir] at h
  split at h
  next =>
    obtain ⟨_, -, hexists⟩ := bind_ok.mp h
    cases hexists
  next hlast =>
    obtain ⟨location, hplace, hput⟩ := bind_ok.mp h
    obtain ⟨parent, hparent, hdir, rfl⟩ := place_ok hplace
    split at hput
    next => cases hput
    next hsome =>
      obtain rfl := (Except.ok.inj hput).symm
      cases hlast? : (Text.trimEnd (· = "") p.names).getLast? with
      | none => simp [hlast?] at hlast
      | some last =>
        simp only [hlast?, Option.getD_some] at hlast hsome ⊢
        obtain ⟨hstep, hsteps⟩ := Path.steps_of_last hlast? hlast
        have hnone := Option.not_isSome_iff_eq_none.mp hsome
        have hfree : d.at? (parent ++ [last]) ≠ some .directory := by simp [hnone]
        have hmade : (d.put (parent ++ [last]) .directory).at? (parent ++ [last]) =
            some .directory := at?_put_self (by simp)
        refine ⟨_, by simp, hnone, rfl, directory_of_follow hparent hdir, ?_⟩
        rw [hsteps, follow_append, follow_put (follow_steps hparent) hfree, ok_bind]
        refine follow_name ?_ hstep (by rw [hmade]; rfl)
        rw [at?_put_of_ne (by simp), hdir]

theorem gains_of_makeDir (hstart : d.start q = d.start p) (hsteps : q.steps <+: p.steps)
    (h : d.makeDir q = .ok after) : d.Gains p after := by
  obtain ⟨location, hroot, hnone, rfl, hdir, hfollow⟩ := makeDir_ok h
  have hne : d.start p ≠ location := by
    rintro rfl
    simp [hstart, hnone] at hdir
  refine ⟨rfl, at?_put_of_ne hne, fun l => ?_⟩
  by_cases hl : l = location
  · subst hl
    exact .inr ⟨hnone, at?_put_self hroot, q.steps, hsteps, hstart ▸ hfollow⟩
  · exact .inl (at?_put_of_ne hl)

theorem gains_makeDirs (p : Path) :
    Action.Keeps (Gains p) (Action.makeDirs p : Action (StateM Disk) Unit) := by
  refine Action.keeps_makeDirs fun q hq d after hmade => ?_
  rcases List.mem_cons.mp hq with rfl | habove
  · exact gains_of_makeDir rfl (List.prefix_refl _) hmade
  · obtain ⟨front, hne, hfront, rfl⟩ := Path.exists_of_mem_above habove
    refine gains_of_makeDir ?_ (by rwa [Path.steps_ofSteps hne hfront]) hmade
    simp only [start, Path.isAbsolute_ofSteps hne hfront]

-- ---------------------------------------------------------------------------
-- Trees
-- ---------------------------------------------------------------------------

/-- What is on the disk stands in a directory. -/
def IsTree (d : Disk) : Prop :=
  ∀ parent name, (d.at? (parent ++ [name])).isSome → d.at? parent = some .directory

namespace IsTree

theorem blank : Disk.blank.IsTree := by
  intro parent name hsome
  simp [Disk.at?, Disk.blank] at hsome

theorem put (h : d.IsTree) (hparent : d.at? parent = some .directory)
    (hfree : d.at? (parent ++ [name]) ≠ some .directory) :
    (d.put (parent ++ [name]) e).IsTree := by
  intro l last hsome
  have hl : d.at? l = some .directory := by
    by_cases hlast : l ++ [last] = parent ++ [name]
    · rwa [(List.append_inj' hlast rfl).1]
    · rw [at?_put_of_ne hlast] at hsome
      exact h l last hsome
  have hne : l ≠ parent ++ [name] := by
    rintro rfl
    exact hfree hl
  rw [at?_put_of_ne hne, hl]

theorem directory_of_append {more : List String} (h : d.IsTree) (hne : more ≠ [])
    (hsome : (d.at? (l ++ more)).isSome) : d.at? l = some .directory := by
  induction more generalizing l with
  | nil => exact absurd rfl hne
  | cons name more ih =>
    by_cases hmore : more = []
    · subst hmore
      exact h l name hsome
    · have hname : d.at? (l ++ [name]) = some .directory := ih hmore (by simpa using hsome)
      exact h l name (by rw [hname]; rfl)

theorem isSome_of_prefix (h : d.IsTree) (hbelow : l <+: location)
    (hsome : (d.at? location).isSome) : (d.at? l).isSome := by
  obtain ⟨more, rfl⟩ := hbelow
  by_cases hmore : more = []
  · rwa [hmore, List.append_nil] at hsome
  · rw [h.directory_of_append hmore hsome]
    rfl

theorem isSome_toward (h : d.IsTree) (hl : (d.at? l).isSome)
    (hthere : name ∉ ["", ".", ".."] → (d.at? (l ++ [name])).isSome) :
    (d.at? (toward l name)).isSome := by
  by_cases hname : name ∈ ["", ".", ".."]
  · simp only [List.mem_cons, List.not_mem_nil, or_false] at hname
    rcases hname with rfl | rfl | rfl
    · exact hl
    · exact hl
    · exact h.isSome_of_prefix (List.dropLast_prefix l) hl
  · rw [toward_name hname]
    exact hthere hname

theorem isSome_of_follow (h : d.IsTree) (hl : (d.at? l).isSome)
    (hfollow : d.follow l names = .ok found) : (d.at? found).isSome := by
  induction names generalizing l with
  | nil =>
    cases hfollow
    exact hl
  | cons name names ih =>
    obtain ⟨-, hthere, hrest⟩ := follow_cons_ok.mp hfollow
    exact ih (h.isSome_toward hl hthere) hrest

end IsTree

-- ---------------------------------------------------------------------------
-- Climbing
-- ---------------------------------------------------------------------------

/-- A path that does not climb out of what is missing. -/
def Direct (d : Disk) (p : Path) : Prop :=
  ∀ front rest, p.steps = front ++ rest → d.follow (d.start p) front = .error .noEntry →
    ".." ∉ rest

theorem direct_of_not_mem (h : ".." ∉ p.names) : d.Direct p := by
  intro front rest hsteps _ hup
  have hmem : ".." ∈ p.steps := by
    rw [hsteps]
    exact List.mem_append_right front hup
  exact h (List.mem_of_mem_filter hmem)

theorem prefix_of_follow (hup : ".." ∉ names) (h : d.follow l names = .ok found) : l <+: found := by
  induction names generalizing l with
  | nil =>
    cases h
    exact List.prefix_rfl
  | cons name names ih =>
    obtain ⟨-, -, hrest⟩ := follow_cons_ok.mp h
    obtain ⟨hname, hnames⟩ := not_or.mp (List.mem_cons.not.mp hup)
    refine List.IsPrefix.trans ?_ (ih hnames hrest)
    rw [toward, if_neg (Ne.symm hname)]
    split
    · exact List.prefix_rfl
    · exact List.prefix_append l [name]

namespace Gains

/-- Names that lead somewhere now led there before, or through what was missing. -/
theorem follow_or_missing (h : d.Gains p after) (htree : d.IsTree) (hl : (d.at? l).isSome)
    (hfollow : after.follow l names = .ok found) :
    d.follow l names = .ok found ∨
      ∃ front rest missing, names = front ++ rest ∧ d.follow l front = .error .noEntry ∧
        d.at? missing = none ∧ after.follow missing rest = .ok found := by
  induction names generalizing l with
  | nil => exact .inl hfollow
  | cons name names ih =>
    obtain ⟨hdir', -, hrest⟩ := follow_cons_ok.mp hfollow
    have hdir : d.at? l = some .directory := by rwa [h.at?_of_isSome hl] at hdir'
    by_cases hmissing : name ∉ ["", ".", ".."] ∧ d.at? (l ++ [name]) = none
    · obtain ⟨hname, hnone⟩ := hmissing
      rw [toward_name hname] at hrest
      exact .inr ⟨[name], names, l ++ [name], rfl, follow_missing hdir hname hnone, hnone, hrest⟩
    · have hthere : name ∉ ["", ".", ".."] → (d.at? (l ++ [name])).isSome := fun hname =>
        Option.isSome_iff_ne_none.mpr fun hnone => hmissing ⟨hname, hnone⟩
      rcases ih (htree.isSome_toward hl hthere) hrest with
        hled | ⟨front, rest, missing, rfl, herror, hnone, hled⟩
      · exact .inl (follow_cons_ok.mpr ⟨hdir, hthere, hled⟩)
      · refine .inr ⟨name :: front, rest, missing, rfl, ?_, hnone, hled⟩
        have hcons := d.follow_append l [name] front
        rwa [follow_one hdir hthere, ok_bind, herror] at hcons

variable {made : Disk}

/-- A path that opens a directory starts in one, which is never made. -/
theorem isSome_start (h : d.Gains p made) (hopens : made.Opens p parent) :
    (d.at? (d.start p)).isSome := by
  have hstart := directory_of_follow hopens.follow hopens.directory
  rw [h.start, h.atStart] at hstart
  rw [hstart]
  rfl

theorem opens (h : d.Gains p made) (htree : d.IsTree) (hdirect : d.Direct p)
    (hopens : made.Opens p parent) (hsome : (d.at? parent).isSome) : d.Opens p parent := by
  obtain ⟨hsteps, hdir⟩ := opens_iff.mp hopens
  rw [h.start] at hsteps
  rw [h.at?_of_isSome hsome] at hdir
  refine opens_iff.mpr ⟨?_, hdir⟩
  rcases h.follow_or_missing htree (h.isSome_start hopens) hsteps with
    hled | ⟨front, rest, missing, hfront, herror, hnone, hled⟩
  · exact hled
  · -- the path goes down from what was missing, where nothing was
    have hbelow := prefix_of_follow (hdirect front rest hfront herror) hled
    have hmissing := htree.isSome_of_prefix hbelow hsome
    simp [hnone] at hmissing

theorem at?_join (h : d.Gains p made) (htree : d.IsTree) (hdirect : d.Direct p)
    (hopens : made.Opens p parent) (name : String) :
    made.at? (parent ++ [name]) = d.at? (parent ++ [name]) := by
  rcases h.gained (parent ++ [name]) with hsame | ⟨hnone, -, front, ⟨more, hsteps⟩, hfront⟩
  · exact hsame
  · -- the path leads from what was made back to its end, so it climbs
    have hend : made.follow (parent ++ [name]) more = .ok parent := by
      have hparent := (opens_iff.mp hopens).1
      rwa [h.start, ← hsteps, follow_append, hfront, ok_bind] at hparent
    rcases h.follow_or_missing htree (h.isSome_start hopens) hfront with
      hled | ⟨before, rest, missing, rfl, herror, -, -⟩
    · have hsome := htree.isSome_of_follow (h.isSome_start hopens) hled
      simp [hnone] at hsome
    · have hup := hdirect before (rest ++ more) (by rw [← hsteps, List.append_assoc]) herror
      have hbelow := prefix_of_follow (fun hmore => hup (List.mem_append_right rest hmore)) hend
      have hlength := hbelow.length_le
      simp only [List.length_append, List.length_singleton] at hlength
      omega

/-- A name that the path leads to after all led there before. -/
theorem look (h : d.Gains p made) (htree : d.IsTree) (hdirect : d.Direct p)
    (hopens : made.Opens p parent) (hname : IsFileName name)
    (he : made.at? (parent ++ [name]) = some e) : d.look (p.join name) = .ok e := by
  rw [h.at?_join htree hdirect hopens] at he
  have hsome : (d.at? parent).isSome := by
    rw [htree parent name (by rw [he]; rfl)]
    rfl
  exact (h.opens htree hdirect hopens hsome).look hname he

theorem at?_of_look (h : d.Gains p made) (hopens : made.Opens p parent) (hname : IsFileName name)
    (hlook : d.look (p.join name) = .ok e) : made.at? (parent ++ [name]) = some e := by
  obtain ⟨parent', hopens', he⟩ := opens_of_look hname hlook
  have hmade : made.Opens p parent' :=
    ⟨by rw [h.start]; exact h.follow hopens'.follow, h.at? hopens'.directory⟩
  rw [hopens.unique hmade]
  exact h.at? he

end Gains

end RestQuery.Disk
