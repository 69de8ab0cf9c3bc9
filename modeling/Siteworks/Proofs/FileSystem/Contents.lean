import Mathlib
import Siteworks.Proofs.FileSystem.Following

/-!
# Reading and writing below a directory

Where names lead from a directory, reading answers the content of the file at that place, and
writing succeeds exactly at a place that admits a file, and changes nothing else.
-/

namespace Siteworks.FileSystem

/-- Without a link on the way none is followed. -/
theorem followLinks_eq_follow {fs : FileSystem} {links : Nat} {place : Place}
    {segments : List String}
    (h : ∀ parent target rest, follow fs place segments ≠ .linked parent target rest) :
    followLinks fs links place segments = follow fs place segments := by
  cases links <;>
  · unfold followLinks
    split
    next hlinked => exact absurd hlinked (h _ _ _)
    · rfl

/-- What was put at a place that admits it is there. -/
theorem get?_put_self {fs : FileSystem} {place : Place} (h : fs.Admits place) (node : Node) :
    (fs.put place node).get? place = some node := by
  rw [get?_put h, if_pos rfl]

/-- A place admits a file after another one. -/
theorem Admits.put_file {fs : FileSystem} {place : Place} (h : fs.Admits place)
    (content : Content) : (fs.put place (.file content)).Admits place := by
  have hne : place ≠ place.dropLast := by
    obtain ⟨name, hname, -⟩ := h.1
    intro heq
    have hlength := congrArg List.length heq
    have hpos := List.length_pos_of_mem (List.mem_of_getLast? hname)
    rw [List.length_dropLast] at hlength
    omega
  refine ⟨h.1, ?_, ?_⟩
  · rw [get?_put h, if_neg hne]
    exact h.2.1
  · rw [get?_put_self h]
    exact nofun

/-- A place with a file admits another one. -/
theorem admits_of_file {fs : FileSystem} {place : Place} {content : Content}
    (h : fs.get? place = some (.file content)) : fs.Admits place := by
  rcases List.eq_nil_or_concat place with rfl | ⟨front, name, rfl⟩
  · cases h.symm.trans fs.root
  · rw [List.concat_eq_append] at h ⊢
    have hsome : (fs.get? (front ++ [name])).isSome := by rw [h]; rfl
    refine ⟨⟨name, by simp, fs.named front name hsome⟩, ?_, by simp [h]⟩
    rw [List.dropLast_concat]
    exact fs.closed front name hsome

/-- A file that is emptied and written again is as it was. -/
theorem put_put_of_file {fs : FileSystem} {place : Place} {content : Content}
    (h : fs.get? place = some (.file content)) (other : Content) :
    (fs.put place (.file other)).put place (.file content) = fs := by
  have hadmits := admits_of_file h
  refine ext_get? (by simp) fun q => ?_
  rw [get?_put (hadmits.put_file other), get?_put hadmits]
  split
  next heq => rw [← heq, h]
  · rfl

namespace Leads

variable {fs : FileSystem} {path : Path} {base : Place} {names slashes : List String}

/-- A path with a name in it is not empty. -/
theorem isEmpty_eq (h : fs.Leads path base names slashes) (hne : names ≠ []) :
    path.isEmpty = false := by
  obtain ⟨front, hsegments, -⟩ := h.front
  obtain ⟨name, hname⟩ := List.exists_mem_of_ne_nil names hne
  have hfilled : ¬ ∀ segment ∈ path.segments, segment = "" := by
    intro hall
    refine (h.named name hname).1 (hall name ?_)
    rw [hsegments]
    simp [hname]
  simp only [Path.isEmpty, Bool.and_eq_false_iff, List.all_eq_false, decide_eq_true_eq]
  left
  simpa using hfilled

/-- A path leads where its names lead from the base. -/
theorem reach_eq (h : fs.Leads path base names []) (hne : names ≠ [])
    (hlink : ∀ parent target rest, follow fs base names ≠ .linked parent target rest) :
    fs.reach path = follow fs base names := by
  obtain ⟨front, hsegments, hfront⟩ := h.front
  obtain ⟨left, hleft⟩ := followLinks_append hfront h.directory names
  rw [List.append_nil] at hsegments
  rw [reach, h.isEmpty_eq hne, hsegments, hleft, followLinks_eq_follow hlink]
  rfl

/-- A path leads to what its names lead to. -/
theorem locate_eq (h : fs.Leads path base names []) (hne : names ≠ []) {node : Node}
    (hnode : fs.get? (base ++ names) = some node) (hlink : ∀ target, node ≠ .link target) :
    fs.locate path = .ok (base ++ names) := by
  have hfollow := follow_names hnode hlink
  rw [locate, h.reach_eq hne (by simp [hfollow]), hfollow]

/-- A path to a file reads its content. -/
theorem read_eq (h : fs.Leads path base names []) (hne : names ≠ []) {content : Content}
    (hnode : fs.get? (base ++ names) = some (.file content)) : fs.read path = .ok content := by
  rw [read, h.locate_eq hne hnode (by simp)]
  simp [hnode]

/-- Where no links are, a way ends at something, at a free name or at an obstacle. -/
theorem reach_cases (h : fs.Leads path base names []) (hne : names ≠ []) (hbare : fs.Bare base) :
    ((fs.get? (base ++ names)).isSome ∧ fs.reach path = .found (base ++ names)) ∨
      (fs.get? (base ++ names) = none ∧ ∃ name ∈ names.getLast?,
        fs.get? (base ++ names.dropLast) = some .directory ∧
        fs.reach path = .free (base ++ names.dropLast) name false) ∨
      (fs.get? (base ++ names) = none ∧ fs.get? (base ++ names.dropLast) ≠ some .directory ∧
        ∃ fault, fs.reach path = .blocked fault) := by
  cases hnode : fs.get? (base ++ names) with
  | some node =>
    have hfollow := follow_names hnode fun target hlink => hbare names target (hlink ▸ hnode)
    refine Or.inl ⟨rfl, ?_⟩
    rw [h.reach_eq hne (by simp [hfollow]), hfollow]
  | none =>
    obtain ⟨front, name, rfl⟩ : ∃ front name, names = front ++ [name] :=
      ⟨names.dropLast, names.getLast hne, (List.dropLast_concat_getLast hne).symm⟩
    right
    rw [List.dropLast_concat, List.getLast?_concat]
    rcases follow_names_free h.directory hbare h.named hnode with
      ⟨hparent, hfollow⟩ | ⟨hparent, fault, hfollow, -⟩
    · refine Or.inl ⟨rfl, name, rfl, hparent, ?_⟩
      rw [h.reach_eq hne (by simp [hfollow]), hfollow]
    · refine Or.inr ⟨rfl, hparent, fault, ?_⟩
      rw [h.reach_eq hne (by simp [hfollow]), hfollow]

/-- A path leads nowhere but to what its names lead to. -/
theorem eq_of_locate (h : fs.Leads path base names []) (hne : names ≠ []) (hbare : fs.Bare base)
    {place : Place} (hlocate : fs.locate path = .ok place) : place = base ++ names := by
  rw [locate] at hlocate
  rcases h.reach_cases hne hbare with
    ⟨-, hreach⟩ | ⟨-, name, -, -, hreach⟩ | ⟨-, -, fault, hreach⟩
  · rw [hreach] at hlocate
    exact (Except.ok.inj hlocate).symm
  · simp [hreach] at hlocate
  · simp [hreach] at hlocate

/-- A read that succeeds reads the file that the names lead to. -/
theorem read_eq_ok_iff (h : fs.Leads path base names []) (hne : names ≠ []) (hbare : fs.Bare base)
    {content : Content} :
    fs.read path = .ok content ↔ fs.get? (base ++ names) = some (.file content) := by
  refine ⟨fun hread => ?_, h.read_eq hne⟩
  rw [read, locate] at hread
  rcases h.reach_cases hne hbare with
    ⟨hsome, hreach⟩ | ⟨-, name, -, -, hreach⟩ | ⟨-, -, fault, hreach⟩
  · rw [hreach] at hread
    obtain ⟨node, hnode⟩ := Option.isSome_iff_exists.mp hsome
    cases node with
    | directory => simp [hnode] at hread
    | file old =>
      simp only [hnode, Except.ok.injEq] at hread
      rw [hnode, hread]
    | link target => exact absurd hnode (hbare names target)
  · simp [hreach] at hread
  · simp [hreach] at hread

/-- The path leads to a file if the names do. -/
theorem isFile_eq_true_iff (h : fs.Leads path base names []) (hne : names ≠ [])
    (hbare : fs.Bare base) :
    fs.isFile path = true ↔ ∃ content, fs.get? (base ++ names) = some (.file content) := by
  rw [isFile, nodeAt?, locate]
  rcases h.reach_cases hne hbare with
    ⟨hsome, hreach⟩ | ⟨hnone, name, -, -, hreach⟩ | ⟨hnone, -, fault, hreach⟩
  · rw [hreach]
    obtain ⟨node, hnode⟩ := Option.isSome_iff_exists.mp hsome
    cases node <;> simp [hnode]
  · simp [hreach, hnone]
  · simp [hreach, hnone]

/-- A place below the base that its names lead to. -/
theorem admits_iff (h : fs.Leads path base names []) (hne : names ≠ []) :
    fs.Admits (base ++ names) ↔ fs.get? (base ++ names.dropLast) = some .directory ∧
      fs.get? (base ++ names) ≠ some .directory := by
  unfold Admits
  rw [List.dropLast_append_of_ne_nil hne, List.getLast?_append_of_ne_nil _ hne]
  refine and_iff_right ⟨names.getLast hne, List.getLast?_eq_getLast_of_ne_nil hne, ?_⟩
  exact h.named _ (List.getLast_mem hne)

/-- A write succeeds exactly where a file can be put, and puts it there. -/
theorem write_eq_ok_iff (h : fs.Leads path base names []) (hne : names ≠ []) (hbare : fs.Bare base)
    {content : Content} {after : FileSystem} :
    fs.write path content = .ok after ↔
      fs.Admits (base ++ names) ∧ after = fs.put (base ++ names) (.file content) := by
  rw [h.admits_iff hne, write]
  rcases h.reach_cases hne hbare with
    ⟨hsome, hreach⟩ | ⟨hnone, name, hname, hparent, hreach⟩ | ⟨hnone, hparent, fault, hreach⟩
  · rw [hreach]
    have hparent : fs.get? (base ++ names.dropLast) = some .directory := by
      rw [← List.dropLast_concat_getLast hne, ← List.append_assoc] at hsome
      exact get?_eq_directory hsome (List.cons_ne_nil _ _)
    by_cases hdirectory : fs.get? (base ++ names) = some .directory
    · simp [hdirectory]
    · simp [hdirectory, hparent, eq_comm]
  · have hplace : base ++ names.dropLast ++ [name] = base ++ names := by
      rw [List.append_assoc, List.dropLast_append_getLast? name hname]
    simp [hreach, hnone, hparent, hplace, eq_comm]
  · simp [hreach, hparent]

/-- A write is an edit of one file. -/
theorem edits_of_write (h : fs.Leads path base names []) (hne : names ≠ []) (hbare : fs.Bare base)
    {content : Content} {after : FileSystem} (hwrite : fs.write path content = .ok after) :
    Edits (fun _ => False) (· = base ++ names) fs after := by
  obtain ⟨-, rfl⟩ := (h.write_eq_ok_iff hne hbare).mp hwrite
  exact Edits.put_file content (hbare names) rfl

end Leads

end Siteworks.FileSystem
