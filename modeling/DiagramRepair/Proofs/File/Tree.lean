import DiagramRepair.File.Tree
import DiagramRepair.Proofs.File.Path
import Mathlib.Data.List.Induction

namespace DiagramRepair

namespace FileTree

variable {t t' t'' : FileTree} {loc loc' here goal home l : Location} {e : FileEntry} {name : Text}
  {names names' : List Text} {bytes : Bytes} {p folder : Path} {fault : FileFault}
  {entries : List (Location × FileEntry)}

theorem entry?_nil (t : FileTree) : t.entry? [] = some .folder := if_pos rfl

theorem entry?_of_ne (h : l ≠ []) : t.entry? l = t.entries.lookup l := if_neg h

theorem lookup_map_of_ne (h : l ≠ loc) :
    (entries.map fun (k, old) ↦ if k = loc then (k, e) else (k, old)).lookup l =
      entries.lookup l := by
  induction entries with
  | nil => rfl
  | cons entry entries ih =>
    obtain ⟨k, old⟩ := entry
    by_cases hk : k = loc
    · have hne : (l == k) = false := beq_eq_false_iff_ne.mpr (hk ▸ h)
      simp only [List.map_cons, if_pos hk, List.lookup_cons, hne, ih]
    · simp only [List.map_cons, if_neg hk, List.lookup_cons, ih]

theorem lookup_map_self (h : (entries.lookup loc).isSome) :
    (entries.map fun (k, old) ↦ if k = loc then (k, e) else (k, old)).lookup loc = some e := by
  induction entries with
  | nil => simp at h
  | cons entry entries ih =>
    obtain ⟨k, old⟩ := entry
    by_cases hk : k = loc
    · simp [hk]
    · have hne : (loc == k) = false := beq_eq_false_iff_ne.mpr (Ne.symm hk)
      simp only [List.lookup_cons, hne] at h
      simp only [List.map_cons, if_neg hk, List.lookup_cons, hne, ih h]

theorem lookup_filter_of_ne (h : l ≠ loc) :
    (entries.filter fun (k, _) ↦ k ≠ loc).lookup l = entries.lookup l := by
  induction entries with
  | nil => rfl
  | cons entry entries ih =>
    obtain ⟨k, old⟩ := entry
    by_cases hk : k = loc
    · have hne : (l == k) = false := beq_eq_false_iff_ne.mpr (hk ▸ h)
      rw [List.filter_cons_of_neg (by simpa using hk), ih, List.lookup_cons, hne]
    · rw [List.filter_cons_of_pos (by simpa using hk), List.lookup_cons, List.lookup_cons, ih]

theorem lookup_filter_self : (entries.filter fun (k, _) ↦ k ≠ loc).lookup loc = none := by
  rw [List.lookup_eq_none_iff]
  intro entry hentry
  have hne := (List.mem_filter.mp hentry).2
  exact bne_iff_ne.mpr (Ne.symm (of_decide_eq_true hne))

theorem entry?_put_self (h : loc ≠ []) : entry? (t.put loc e) loc = some e := by
  rw [entry?_of_ne h, put]
  split
  · rename_i hsome
    exact lookup_map_self hsome
  · rename_i hnone
    rw [Option.not_isSome_iff_eq_none] at hnone
    rw [List.lookup_append, hnone]
    simp

theorem entry?_put_of_ne (h : l ≠ loc) : entry? (t.put loc e) l = t.entry? l := by
  by_cases hnil : l = []
  · rw [hnil, entry?_nil, entry?_nil]
  rw [entry?_of_ne hnil, entry?_of_ne hnil, put]
  split
  · exact lookup_map_of_ne h
  · have hne : (l == loc) = false := beq_eq_false_iff_ne.mpr h
    simp [List.lookup_append, List.lookup_cons, hne]

theorem entry?_remove_self (h : loc ≠ []) : entry? (t.remove loc) loc = none := by
  rw [entry?_of_ne h]
  exact lookup_filter_self

theorem entry?_remove_of_ne (h : l ≠ loc) : entry? (t.remove loc) l = t.entry? l := by
  by_cases hnil : l = []
  · rw [hnil, entry?_nil, entry?_nil]
  rw [entry?_of_ne hnil, entry?_of_ne hnil]
  exact lookup_filter_of_ne h

/-- The files at another time: all is the same but what stands at the locations, and the fates that
are used up. -/
structure Later (t t' : FileTree) : Prop where
  mount : t'.mount = t.mount
  fates : t'.fates <:+ t.fates

namespace Later

theorem refl (t : FileTree) : t.Later t := ⟨rfl, List.suffix_rfl⟩

theorem trans (h : t.Later t') (h' : t'.Later t'') : t.Later t'' :=
  ⟨h'.mount.trans h.mount, h'.fates.trans h.fates⟩

theorem next (t : FileTree) : t.Later t.next := ⟨rfl, List.tail_suffix t.fates⟩

theorem put (h : t.Later t') (loc : Location) (e : FileEntry) : t.Later (t'.put loc e) :=
  ⟨h.mount, h.fates⟩

theorem remove (h : t.Later t') (loc : Location) : t.Later (t'.remove loc) := ⟨h.mount, h.fates⟩

theorem start (h : t.Later t') (p : Path) : t'.start p = t.start p := by
  rw [FileTree.start, FileTree.start, h.mount]

end Later

structure FoldersStay (t t' : FileTree) : Prop extends t.Later t' where
  folder : ∀ l, t.entry? l = some .folder → t'.entry? l = some .folder

theorem FoldersStay.refl (t : FileTree) : t.FoldersStay t := ⟨.refl t, fun _ hl ↦ hl⟩

theorem FoldersStay.trans (h : t.FoldersStay t') (h' : t'.FoldersStay t'') : t.FoldersStay t'' :=
  ⟨h.toLater.trans h'.toLater, fun l hl ↦ h'.folder l (h.folder l hl)⟩

theorem FoldersStay.walk (h : t.FoldersStay t') (hwalk : t.walk here names = .ok loc) :
    t'.walk here names = .ok loc := by
  induction names generalizing here with
  | nil => exact hwalk
  | cons name names ih =>
    rw [FileTree.walk] at hwalk
    split at hwalk
    · cases hwalk
    · cases hwalk
    · rename_i hfolder
      rw [FileTree.walk, h.folder _ hfolder]
      exact ih hwalk

theorem ne_nullByte_of_walk {cause : FileCause} (h : t.walk here names = .error cause) :
    cause ≠ .nullByte := by
  induction names generalizing here with
  | nil => cases h
  | cons name names ih =>
    rw [FileTree.walk] at h
    split at h
    · obtain rfl := Except.error.inj h
      exact nofun
    · obtain rfl := Except.error.inj h
      exact nofun
    · exact ih h

theorem isSome_of_walk (h : t.walk here names = .ok loc) (hloc : (t.entry? loc).isSome) :
    (t.entry? here).isSome := by
  cases names with
  | nil =>
    obtain rfl := Except.ok.inj h
    exact hloc
  | cons name names =>
    rw [FileTree.walk] at h
    split at h
    · cases h
    · cases h
    · rename_i hfolder
      rw [hfolder]
      rfl

theorem locate_eq_ok :
    t.locate p = .ok loc ↔ p.hasNull = false ∧ t.walk (t.start p) p.parts = .ok loc := by
  rw [locate]
  cases p.hasNull
  · cases t.walk (t.start p) p.parts <;> simp [Except.mapError]
  · simp

theorem isReported_of_locate (h : t.locate p = .error fault) :
    fault.isReported = !p.hasNull := by
  rw [locate] at h
  cases hnull : p.hasNull
  · rw [hnull, if_neg Bool.false_ne_true] at h
    cases hwalk : t.walk (t.start p) p.parts with
    | ok loc =>
      rw [hwalk] at h
      cases h
    | error cause =>
      rw [hwalk] at h
      obtain rfl := Except.error.inj h
      simpa [FileFault.isReported] using ne_nullByte_of_walk hwalk
  · rw [hnull, if_pos rfl] at h
    obtain rfl := Except.error.inj h
    rfl

theorem FoldersStay.locate (h : t.FoldersStay t') (hp : t.locate p = .ok loc) :
    t'.locate p = .ok loc := by
  rw [locate_eq_ok] at hp ⊢
  exact ⟨hp.1, by rw [h.start, h.walk hp.2]⟩

theorem walk_append (h : t.walk here names = .ok loc) :
    t.walk here (names ++ names') = t.walk loc names' := by
  induction names generalizing here with
  | nil =>
    obtain rfl := Except.ok.inj h
    rfl
  | cons name names ih =>
    rw [walk] at h
    split at h
    · cases h
    · cases h
    · rename_i hfolder
      rw [List.cons_append, walk, hfolder]
      exact ih h

/-- A walk that ends at some place has come by the place before the last name. -/
theorem exists_walk_of_append (h : t.walk here (names ++ [name]) = .ok loc) :
    ∃ above, t.walk here names = .ok above ∧ t.entry? above = some .folder ∧
      loc = if name = ['.', '.'] then above.dropLast else above ++ [name] := by
  induction names generalizing here with
  | nil =>
    rw [List.nil_append, walk] at h
    split at h
    · cases h
    · cases h
    · rename_i hfolder
      exact ⟨here, rfl, hfolder, (Except.ok.inj h).symm⟩
  | cons name' names ih =>
    rw [List.cons_append, walk] at h
    split at h
    · cases h
    · cases h
    · rename_i hfolder
      obtain ⟨above, hwalk, habove⟩ := ih h
      refine ⟨above, ?_, habove⟩
      rw [walk, hfolder]
      exact hwalk

theorem eq_append_of_walk (hnames : ['.', '.'] ∉ names) (h : t.walk here names = .ok loc) :
    loc = here ++ names := by
  induction names generalizing here with
  | nil =>
    obtain rfl := Except.ok.inj h
    rw [List.append_nil]
  | cons name names ih =>
    rw [List.mem_cons, not_or] at hnames
    rw [walk] at h
    split at h
    · cases h
    · cases h
    · rw [if_neg (Ne.symm hnames.1)] at h
      rw [ih hnames.2 h, List.append_assoc]
      rfl

/-- Every location is listed once, its names are names of entries, and it lies in a folder. The
working folder is there. -/
structure WellFormed (t : FileTree) : Prop where
  nodup : (t.entries.map Prod.fst).Nodup
  ne_nil : [] ∉ t.entries.map Prod.fst
  isName : ∀ loc ∈ t.entries.map Prod.fst, ∀ name ∈ loc, Path.IsName name
  above : ∀ loc ∈ t.entries.map Prod.fst, t.entry? loc.dropLast = some .folder
  working : t.entry? t.mount.working = some .folder

instance (t : FileTree) : Decidable t.WellFormed :=
  decidable_of_iff
    ((t.entries.map Prod.fst).Nodup ∧ [] ∉ t.entries.map Prod.fst ∧
      (∀ loc ∈ t.entries.map Prod.fst, ∀ name ∈ loc, Path.IsName name) ∧
      (∀ loc ∈ t.entries.map Prod.fst, t.entry? loc.dropLast = some .folder) ∧
      t.entry? t.mount.working = some .folder)
    ⟨fun ⟨h₁, h₂, h₃, h₄, h₅⟩ ↦ ⟨h₁, h₂, h₃, h₄, h₅⟩,
      fun ⟨h₁, h₂, h₃, h₄, h₅⟩ ↦ ⟨h₁, h₂, h₃, h₄, h₅⟩⟩

theorem isSome_entry?_iff :
    (t.entry? loc).isSome ↔ loc = [] ∨ loc ∈ t.entries.map Prod.fst := by
  by_cases hnil : loc = []
  · simp [hnil, entry?_nil]
  · rw [entry?_of_ne hnil, List.lookup_isSome_iff, List.mem_map, or_iff_right hnil]
    exact exists_congr fun entry ↦ and_congr_right fun _ ↦ beq_iff_eq.trans eq_comm

namespace WellFormed

variable (h : t.WellFormed)

include h

theorem isName_of_mem (hloc : (t.entry? loc).isSome) (hname : name ∈ loc) :
    Path.IsName name := by
  rcases isSome_entry?_iff.mp hloc with rfl | hmem
  · cases hname
  · exact h.isName loc hmem name hname

theorem folder_above (hloc : (t.entry? loc).isSome) : t.entry? loc.dropLast = some .folder := by
  rcases isSome_entry?_iff.mp hloc with rfl | hmem
  · exact entry?_nil t
  · exact h.above loc hmem

theorem folder_of_append (hloc : (t.entry? (here ++ names)).isSome) (hne : names ≠ []) :
    t.entry? here = some .folder := by
  induction names using List.reverseRecOn with
  | nil => exact absurd rfl hne
  | append_singleton names name ih =>
    have habove := h.folder_above hloc
    rw [← List.append_assoc, List.dropLast_concat] at habove
    by_cases hnames : names = []
    · rwa [hnames, List.append_nil] at habove
    · exact ih (by rw [habove]; rfl) hnames

theorem up_not_mem (hloc : (t.entry? loc).isSome) : ['.', '.'] ∉ loc := fun hmem ↦
  (h.isName_of_mem hloc hmem).2.1 rfl

theorem walk (hloc : (t.entry? (here ++ names)).isSome) :
    t.walk here names = .ok (here ++ names) := by
  induction names generalizing here with
  | nil => rw [List.append_nil]; rfl
  | cons name names ih =>
    have hname : name ≠ ['.', '.'] := by
      rintro rfl
      exact h.up_not_mem hloc (by simp)
    have hrest : here ++ name :: names = here ++ [name] ++ names := by simp
    rw [FileTree.walk, h.folder_of_append hloc (List.cons_ne_nil name names), if_neg hname, hrest]
    exact ih (hrest ▸ hloc)

/-- A walk to something that is there follows names of entries and leads up. -/
theorem isPart_of_walk (hwalk : t.walk here names = .ok loc) (hloc : (t.entry? loc).isSome)
    (hname : name ∈ names) : Path.IsPart name := by
  induction names generalizing here with
  | nil => cases hname
  | cons name' names ih =>
    rw [FileTree.walk] at hwalk
    split at hwalk
    · cases hwalk
    · cases hwalk
    · rcases List.mem_cons.mp hname with rfl | hname
      · by_cases hup : name = ['.', '.']
        · rw [hup]
          decide
        · rw [if_neg hup] at hwalk
          exact (h.isName_of_mem (isSome_of_walk hwalk hloc) (by simp)).1
      · exact ih hwalk hname

theorem regular_of_locate (hp : t.locate p = .ok loc) (hloc : (t.entry? loc).isSome) :
    p.Regular := fun _ hname ↦ h.isPart_of_walk (locate_eq_ok.mp hp).2 hloc hname

end WellFormed

theorem locate_append (hfolder : t.locate folder = .ok home) (h : t.WellFormed)
    (hloc : (t.entry? (home ++ names)).isSome) :
    t.locate ⟨folder.root, folder.parts ++ names⟩ = .ok (home ++ names) := by
  rw [locate_eq_ok] at hfolder ⊢
  refine ⟨?_, (walk_append hfolder.2).trans (h.walk hloc)⟩
  rw [Path.hasNull_eq_false] at hfolder ⊢
  refine List.forall_mem_append.mpr ⟨hfolder.1, fun name hname ↦ ?_⟩
  exact (h.isName_of_mem hloc (List.mem_append_right home hname)).2.2

/-- What is listed for an entry: the path that leads to it through the folder. -/
theorem listed_eq_some : (if home.isPrefixOf l && home.length < l.length then
      some (⟨folder.root, folder.parts ++ l.drop home.length⟩ : Path) else none) = some p ↔
    ∃ names, names ≠ [] ∧ l = home ++ names ∧ p = ⟨folder.root, folder.parts ++ names⟩ := by
  simp only [Bool.and_eq_true, List.isPrefixOf_iff_prefix, decide_eq_true_eq]
  constructor
  · intro hlisted
    split at hlisted
    · rename_i hbelow
      obtain ⟨⟨names, rfl⟩, hlength⟩ := hbelow
      rw [List.drop_left] at hlisted
      refine ⟨names, ?_, rfl, (Option.some.inj hlisted).symm⟩
      rintro rfl
      simp at hlength
    · cases hlisted
  · rintro ⟨names, hne, rfl, rfl⟩
    have hlength : 0 < names.length := List.length_pos_iff.mpr hne
    simp [hlength]

theorem mem_markdownBelow (hfolder : t.locate folder = .ok home) :
    p ∈ t.markdownBelow folder ↔ p.isMarkdown ∧ ∃ names, names ≠ [] ∧
      (t.entry? (home ++ names)).isSome ∧ p = ⟨folder.root, folder.parts ++ names⟩ := by
  rw [markdownBelow, hfolder]
  simp only [List.mem_mergeSort, List.mem_filter, List.mem_filterMap, listed_eq_some]
  rw [and_comm, and_congr_right_iff]
  intro _
  constructor
  · rintro ⟨⟨l, e⟩, hmem, names, hne, rfl, rfl⟩
    exact ⟨names, hne, isSome_entry?_iff.mpr (.inr (List.mem_map_of_mem hmem)), rfl⟩
  · rintro ⟨names, hne, hloc, rfl⟩
    rcases isSome_entry?_iff.mp hloc with hnil | hmem
    · simp [hne] at hnil
    · obtain ⟨entry, hmem, hentry⟩ := List.mem_map.mp hmem
      exact ⟨entry, hmem, names, hne, hentry, rfl⟩

theorem nodup_markdownBelow (folder : Path) (h : t.WellFormed) :
    (t.markdownBelow folder).Nodup := by
  rw [markdownBelow]
  split
  · exact List.nodup_nil
  · rw [(List.mergeSort_perm _ _).nodup_iff]
    refine List.Nodup.sublist List.filter_sublist ((List.pairwise_map.mp h.nodup).filterMap _ ?_)
    intro entry entry' hne p hp p' hp' heq
    obtain ⟨names, -, hentry, rfl⟩ := listed_eq_some.mp hp
    obtain ⟨names', -, hentry', rfl⟩ := listed_eq_some.mp hp'
    obtain rfl : names = names' := List.append_cancel_left (congrArg Path.parts heq)
    exact hne (hentry.trans hentry'.symm)

theorem pairwise_markdownBelow (t : FileTree) (folder : Path) :
    (t.markdownBelow folder).Pairwise fun p q ↦ ¬ q.parts < p.parts := by
  rw [markdownBelow]
  split
  · exact .nil
  · refine (List.pairwise_mergeSort (fun p q r h h' ↦ ?_) (fun p q ↦ ?_) _).imp fun hle ↦ ?_
    · rw [decide_eq_true_eq] at h h' ⊢
      exact List.le_trans h h'
    · rw [Bool.or_eq_true, decide_eq_true_eq, decide_eq_true_eq]
      exact List.le_total p.parts q.parts
    · exact of_decide_eq_true hle

end FileTree

end DiagramRepair
