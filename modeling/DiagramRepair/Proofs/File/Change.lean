import DiagramRepair.Proofs.File.Tree
import Mathlib.Data.List.Nodup
import Mathlib.Data.Set.Basic

namespace DiagramRepair.FileTree

variable {t t' t'' : FileTree} {loc above goal l : Location} {e : FileEntry} {name : Text}
  {names : List Text} {bytes old : Bytes} {p q : Path} {fault : FileFault} {root : Text}
  {result : Result} {extra : Set Location}

theorem entry?_next (t : FileTree) (l : Location) : t.next.entry? l = t.entry? l := rfl

inductive Changed (t : FileTree) (p : Path) (whole : FileTree → FileTree)
    (part : Nat → FileTree → FileTree) : Result → Prop
  | made : Changed t p whole part (.ok (), whole t.next)
  | refused (reason : Text) (hfate : .refused reason ∈ t.fates) :
    Changed t p whole part (.error ⟨.system reason, p⟩, t.next)
  | torn (reason : Text) (count : Nat) (hfate : .torn reason count ∈ t.fates) :
    Changed t p whole part (.error ⟨.system reason, p⟩, part count t.next)

theorem changed_change (t : FileTree) (p : Path) (whole : FileTree → FileTree)
    (part : Nat → FileTree → FileTree) : Changed t p whole part (t.change p whole part) := by
  rw [change]
  cases hfates : t.fates with
  | nil => exact .made
  | cons fate fates =>
    cases fate with
    | made => exact .made
    | refused reason => exact .refused reason (by simp [hfates])
    | torn reason count => exact .torn reason count (by simp [hfates])

theorem keys_put_of_isSome (h : (t.entries.lookup loc).isSome) :
    (t.put loc e).entries.map Prod.fst = t.entries.map Prod.fst := by
  rw [put, if_pos h, List.map_map]
  refine List.map_congr_left fun entry _ ↦ ?_
  by_cases hloc : entry.1 = loc <;> simp [hloc]

theorem keys_put_of_none (h : t.entries.lookup loc = none) :
    (t.put loc e).entries.map Prod.fst = t.entries.map Prod.fst ++ [loc] := by
  rw [put, if_neg (by simp [h])]
  simp

namespace WellFormed

variable (h : t.WellFormed)

include h

theorem put_file (hfile : t.entry? loc = some (.file old)) :
    (t.put loc (.file bytes)).WellFormed := by
  have hne : loc ≠ [] := by
    rintro rfl
    simp [entry?_nil] at hfile
  have hkeys : (t.put loc (.file bytes)).entries.map Prod.fst = t.entries.map Prod.fst :=
    keys_put_of_isSome (by rw [← entry?_of_ne hne, hfile]; rfl)
  have hfolder : ∀ l, t.entry? l = some .folder →
      entry? (t.put loc (.file bytes)) l = some .folder := by
    intro l hl
    rw [entry?_put_of_ne, hl]
    rintro rfl
    simp [hfile] at hl
  exact ⟨hkeys ▸ h.nodup, hkeys ▸ h.ne_nil, hkeys ▸ h.isName,
    fun l hl ↦ hfolder _ (h.above l (hkeys ▸ hl)), hfolder _ h.working⟩

theorem put_new (habove : t.entry? above = some .folder) (hname : Path.IsName name)
    (hnone : t.entry? (above ++ [name]) = none) : (t.put (above ++ [name]) e).WellFormed := by
  have hfree : above ++ [name] ∉ t.entries.map Prod.fst := by
    intro hmem
    have hsome := isSome_entry?_iff.mpr (.inr hmem)
    rw [hnone] at hsome
    cases hsome
  have hne : above ++ [name] ≠ [] := by simp
  have hkeys := keys_put_of_none (e := e) ((entry?_of_ne hne).symm.trans hnone)
  have hloc : ∀ l ∈ (t.put (above ++ [name]) e).entries.map Prod.fst,
      l ∈ t.entries.map Prod.fst ∨ l = above ++ [name] := by
    intro l hl
    rw [hkeys] at hl
    simpa using hl
  have hfolder : ∀ l, t.entry? l = some .folder →
      entry? (t.put (above ++ [name]) e) l = some .folder := by
    intro l hl
    rw [entry?_put_of_ne, hl]
    rintro rfl
    simp [hnone] at hl
  refine ⟨?_, ?_, ?_, ?_, hfolder _ h.working⟩
  · rw [hkeys, ← List.concat_eq_append, List.nodup_concat]
    exact ⟨hfree, h.nodup⟩
  · exact fun hl ↦ (hloc [] hl).elim h.ne_nil hne.symm
  · intro l hl name' hname'
    rcases hloc l hl with hl | rfl
    · exact h.isName l hl name' hname'
    · rcases List.mem_append.mp hname' with hname' | hname'
      · exact h.isName_of_mem (by rw [habove]; rfl) hname'
      · rwa [List.mem_singleton.mp hname']
  · intro l hl
    refine hfolder _ ?_
    rcases hloc l hl with hl | rfl
    · exact h.above l hl
    · rwa [List.dropLast_concat]

theorem remove_file (hfile : t.entry? loc = some (.file bytes)) : (t.remove loc).WellFormed := by
  have hsub : ((t.remove loc).entries.map Prod.fst).Sublist (t.entries.map Prod.fst) :=
    List.filter_sublist.map Prod.fst
  have hfolder : ∀ l, t.entry? l = some .folder → entry? (t.remove loc) l = some .folder := by
    intro l hl
    rw [entry?_remove_of_ne, hl]
    rintro rfl
    simp [hfile] at hl
  exact ⟨h.nodup.sublist hsub, fun hl ↦ h.ne_nil (hsub.subset hl),
    fun l hl ↦ h.isName l (hsub.subset hl), fun l hl ↦ hfolder _ (h.above l (hsub.subset hl)),
    hfolder _ h.working⟩

theorem next : t.next.WellFormed := ⟨h.nodup, h.ne_nil, h.isName, h.above, h.working⟩

end WellFormed

/-- The same stands at the location, unless it was free and a folder was made there. -/
def Stays (t t' : FileTree) (l : Location) : Prop :=
  t'.entry? l = t.entry? l ∨ t.entry? l = none ∧ t'.entry? l = some .folder

namespace Stays

theorem trans (h : t.Stays t' l) (h' : t'.Stays t'' l) : t.Stays t'' l := by
  rcases h with heq | ⟨hnone, hfolder⟩
  · rw [Stays, ← heq]
    exact h'
  · rcases h' with heq' | ⟨hnone', -⟩
    · exact .inr ⟨hnone, heq'.trans hfolder⟩
    · rw [hfolder] at hnone'
      cases hnone'

theorem entry?_eq_some (h : t.Stays t' l) (hl : t.entry? l = some e) : t'.entry? l = some e := by
  rcases h with heq | ⟨hnone, -⟩
  · rw [heq, hl]
  · rw [hl] at hnone
    cases hnone

theorem entry?_eq_file (h : t.Stays t' l) :
    t'.entry? l = some (.file bytes) ↔ t.entry? l = some (.file bytes) := by
  refine ⟨fun hl ↦ ?_, h.entry?_eq_some⟩
  rcases h with heq | ⟨-, hfolder⟩
  · rw [← heq, hl]
  · rw [hl] at hfolder
    cases hfolder

end Stays

structure AddsFolders (t t' : FileTree) : Prop extends t.Later t' where
  stays : ∀ l, t.Stays t' l

namespace AddsFolders

theorem refl (t : FileTree) : t.AddsFolders t := ⟨.refl t, fun _ ↦ .inl rfl⟩

theorem next (t : FileTree) : t.AddsFolders t.next := ⟨.next t, fun _ ↦ .inl rfl⟩

theorem trans (h : t.AddsFolders t') (h' : t'.AddsFolders t'') : t.AddsFolders t'' :=
  ⟨h.toLater.trans h'.toLater, fun l ↦ (h.stays l).trans (h'.stays l)⟩

theorem foldersStay (h : t.AddsFolders t') : t.FoldersStay t' :=
  ⟨h.toLater, fun l ↦ (h.stays l).entry?_eq_some⟩

theorem eq_of_file (h : t.AddsFolders t') (hloc : t.locate p = .ok loc)
    (hfile : t.entry? loc = some (.file bytes)) (hloc' : t'.locate p = .ok l)
    (hfile' : t'.entry? l = some (.file old)) : loc = l ∧ bytes = old := by
  obtain rfl := Except.ok.inj ((h.foldersStay.locate hloc).symm.trans hloc')
  have hsame := ((h.stays loc).entry?_eq_some hfile).symm.trans hfile'
  exact ⟨rfl, FileEntry.file.inj (Option.some.inj hsame)⟩

end AddsFolders

theorem isFolder_iff :
    t.isFolder p ↔ ∃ loc, t.locate p = .ok loc ∧ t.entry? loc = some .folder := by
  rw [isFolder, beq_iff_eq, at?]
  cases t.locate p <;> simp

theorem WellFormed.regular_of_isFolder (h : t.WellFormed) (hp : t.isFolder p) : p.Regular := by
  obtain ⟨loc, hloc, hfolder⟩ := isFolder_iff.mp hp
  exact h.regular_of_locate hloc (by rw [hfolder]; rfl)

theorem FoldersStay.isFolder (h : t.FoldersStay t') (hp : t.isFolder p) : t'.isFolder p := by
  obtain ⟨loc, hloc, hfolder⟩ := isFolder_iff.mp hp
  exact isFolder_iff.mpr ⟨loc, h.locate hloc, h.folder loc hfolder⟩

theorem bind_eq_ok {ε α β : Type} {x : Except ε α} {f : α → Except ε β} {b : β} :
    x >>= f = .ok b ↔ ∃ a, x = .ok a ∧ f a = .ok b := by
  cases x <;> simp [bind, Except.bind]

theorem foldersStay_put (h : t.entry? loc ≠ some .folder) :
    t.FoldersStay (t.next.put loc e) := by
  refine ⟨(Later.next t).put loc e, fun l hl ↦ ?_⟩
  rw [entry?_put_of_ne, entry?_next, hl]
  rintro rfl
  exact h hl

/-- What is not there is named last on the path to it, and lies in a folder. -/
theorem WellFormed.exists_of_free (h : t.WellFormed) (hp : p.Regular)
    (hloc : t.locate p = .ok loc) (hnone : t.entry? loc = none) :
    ∃ above name, loc = above ++ [name] ∧ Path.IsName name ∧ t.entry? above = some .folder := by
  obtain ⟨hnull, hwalk⟩ := locate_eq_ok.mp hloc
  rcases List.eq_nil_or_concat' p.parts with hnil | ⟨names, name, hparts⟩
  · rw [hnil] at hwalk
    obtain rfl := Except.ok.inj hwalk
    have hstart : t.entry? (t.start p) = some .folder := by
      rw [start]
      split
      · exact h.working
      · exact entry?_nil t
    rw [hnone] at hstart
    cases hstart
  · have hlast : name ∈ p.parts := by simp [hparts]
    rw [hparts] at hwalk
    obtain ⟨above, -, hfolder, rfl⟩ := exists_walk_of_append hwalk
    have hup : name ≠ ['.', '.'] := by
      rintro rfl
      have hfree := h.folder_above (by rw [hfolder]; rfl)
      rw [if_pos rfl, hfree] at hnone
      cases hnone
    rw [if_neg hup]
    exact ⟨above, name, rfl, ⟨hp name hlast, hup, Path.hasNull_eq_false.mp hnull name hlast⟩,
      hfolder⟩

/-- What comes of making the folders of a path: only folders are added, and unless there is a fault
the path leads to one. -/
structure MakesFolder (t : FileTree) (p : Path) (result : Result) : Prop where
  adds : t.AddsFolders result.2
  wellFormed : result.2.WellFormed
  isFolder : result.1 = .ok () → result.2.isFolder p
  isReported : ∀ fault, result.1 = .error fault → p.hasNull = false → fault.isReported

namespace MakesFolder

theorem failed (hadds : t.AddsFolders t') (ht' : t'.WellFormed)
    (hfault : p.hasNull = false → fault.isReported) : t.MakesFolder p (.error fault, t') := by
  refine ⟨hadds, ht', nofun, fun fault' heq ↦ ?_⟩
  obtain rfl := Except.error.inj heq
  exact hfault

theorem of_put (h : t.WellFormed) (hp : p.Regular) (hloc : t.locate p = .ok loc)
    (hnone : t.entry? loc = none) : t.MakesFolder p (.ok (), t.next.put loc .folder) := by
  obtain ⟨above, name, rfl, hname, habove⟩ := h.exists_of_free hp hloc hnone
  have hmade : entry? (t.next.put (above ++ [name]) .folder) (above ++ [name]) = some .folder :=
    entry?_put_self (by simp)
  have hadds : t.AddsFolders (t.next.put (above ++ [name]) .folder) := by
    refine ⟨(Later.next t).put _ _, fun l ↦ ?_⟩
    by_cases hl : l = above ++ [name]
    · rw [hl]
      exact .inr ⟨hnone, hmade⟩
    · exact .inl (entry?_put_of_ne hl)
  exact ⟨hadds, h.next.put_new habove hname hnone,
    fun _ ↦ isFolder_iff.mpr ⟨_, hadds.foldersStay.locate hloc, hmade⟩, nofun⟩

theorem of_makeFolder (h : t.WellFormed) (hp : p.Regular) :
    t.MakesFolder p (t.makeFolder p) := by
  rw [makeFolder]
  split
  · rename_i fault hfault
    exact failed (.refl t) h fun hnull ↦ by rw [isReported_of_locate hfault, hnull]; rfl
  · rename_i loc hloc
    split
    · exact failed (.refl t) h fun _ ↦ rfl
    · rename_i hnone
      rw [Option.not_isSome_iff_eq_none] at hnone
      have hchanged := changed_change t p (·.put loc .folder) fun _ t ↦ t
      generalize t.change p (·.put loc .folder) (fun _ t ↦ t) = result at hchanged
      cases hchanged with
      | made => exact of_put h hp hloc hnone
      | refused | torn => exact failed (.next t) h.next fun _ ↦ rfl

theorem settle (h : t.MakesFolder p result) : t.MakesFolder p (FileTree.settle p result) := by
  obtain ⟨_ | _, t'⟩ := result
  · rw [FileTree.settle]
    split
    · rename_i hfolder
      exact ⟨h.adds, h.wellFormed, fun _ ↦ hfolder, nofun⟩
    · exact h
  · exact h

theorem trans {fault? : Except FileFault Unit} (h : t.MakesFolder q (fault?, t'))
    (h' : t'.MakesFolder p result) : t.MakesFolder p result :=
  ⟨h.adds.trans h'.adds, h'.wellFormed, h'.isFolder, h'.isReported⟩

theorem of_ensureFoldersRev (h : t.WellFormed) (hp : (⟨root, names.reverse⟩ : Path).Regular) :
    t.MakesFolder ⟨root, names.reverse⟩ (ensureFoldersRev root names t) := by
  induction names generalizing t with
  | nil => exact (of_makeFolder h hp).settle
  | cons name above ih =>
    have hfirst := of_makeFolder h hp
    rw [ensureFoldersRev]
    split
    · rename_i hmissing
      rw [hmissing] at hfirst
      have habove := ih hfirst.wellFormed fun name hname ↦ hp name (by simp_all)
      split
      · -- The folder above is there now, and this one is tried again.
        rename_i hmade
        rw [hmade] at habove
        exact hfirst.trans (habove.trans (of_makeFolder habove.wellFormed hp).settle)
      · rename_i hfailed
        refine ⟨hfirst.adds.trans habove.adds, habove.wellFormed, fun hok ↦ ?_,
          fun fault hfault hnull ↦ habove.isReported fault hfault ?_⟩
        · exact (hfailed _ (Prod.ext hok rfl)).elim
        · rw [Path.hasNull_eq_false] at hnull ⊢
          exact fun name hname ↦ hnull name (by simp_all)
    · exact hfirst.settle

theorem of_ensureFolders (h : t.WellFormed) (hp : p.Regular) :
    t.MakesFolder p (t.ensureFolders p) := by
  obtain ⟨root, names⟩ := p
  have hnames : names.reverse.reverse = names := List.reverse_reverse names
  have hmakes : t.MakesFolder ⟨root, names.reverse.reverse⟩
    (ensureFoldersRev root names.reverse t) := of_ensureFoldersRev h (hnames.symm ▸ hp)
  rwa [hnames] at hmakes

end MakesFolder

theorem readBytes_eq_ok : t.readBytes p = .ok bytes ↔
    ∃ loc, t.locate p = .ok loc ∧ t.entry? loc = some (.file bytes) ∧ loc ∉ t.mount.locked := by
  rw [readBytes, bind_eq_ok]
  refine exists_congr fun loc ↦ and_congr_right fun _ ↦ ?_
  rcases t.entry? loc with _ | _ | old
  · simp
  · simp
  · by_cases hlocked : loc ∈ t.mount.locked <;> simp [hlocked]

theorem mapError_eq_ok {ε ε' α : Type} {x : Except ε α} {f : ε → ε'} {a : α} :
    x.mapError f = .ok a ↔ x = .ok a := by
  cases x <;> simp [Except.mapError]

theorem readText_eq_ok {text : Text} : t.readText p = .ok text ↔
    ∃ bytes decoded, t.readBytes p = .ok bytes ∧ Text.Utf8.decode bytes = .ok decoded ∧
      Text.unifyLineEnds decoded = text := by
  simp [readText, bind_eq_ok, mapError_eq_ok, pure, Except.pure]

/-- Where a text can be read there is a file. -/
theorem exists_of_readText {text : Text} (h : t.readText p = .ok text) :
    ∃ loc bytes, t.locate p = .ok loc ∧ t.entry? loc = some (.file bytes) := by
  obtain ⟨bytes, -, hread, -⟩ := readText_eq_ok.mp h
  obtain ⟨loc, hloc, hfile, -⟩ := readBytes_eq_ok.mp hread
  exact ⟨loc, bytes, hloc, hfile⟩

theorem readBytes_congr (h : t.FoldersStay t') (hloc : t.locate p = .ok loc)
    (hentry : t'.entry? loc = t.entry? loc) : t'.readBytes p = t.readBytes p := by
  rw [readBytes, readBytes, hloc, h.locate hloc]
  simp only [bind, Except.bind, hentry, h.mount]

theorem readText_congr (h : t'.readBytes p = t.readBytes p) : t'.readText p = t.readText p := by
  rw [readText, readText, h]

theorem isReported_of_readBytes (h : t.readBytes p = .error fault) (hnull : p.hasNull = false) :
    fault.isReported := by
  rw [readBytes] at h
  cases hloc : t.locate p with
  | error fault' =>
    rw [hloc] at h
    obtain rfl := Except.error.inj h
    rw [isReported_of_locate hloc, hnull]
    rfl
  | ok loc =>
    simp only [hloc, bind, Except.bind] at h
    split at h
    · obtain rfl := Except.error.inj h
      rfl
    · obtain rfl := Except.error.inj h
      rfl
    · split at h
      · obtain rfl := Except.error.inj h
        rfl
      · cases h

theorem isReported_of_readText {fault : DocumentFault} (h : t.readText p = .error fault)
    (hnull : p.hasNull = false) : fault.isReported := by
  rw [readText] at h
  cases hbytes : t.readBytes p with
  | error fault' =>
    rw [hbytes] at h
    obtain rfl := Except.error.inj h
    exact isReported_of_readBytes hbytes hnull
  | ok bytes =>
    rw [hbytes] at h
    cases hdecode : Text.Utf8.decode bytes with
    | error fault' =>
      simp only [hdecode, bind, Except.bind, Except.mapError] at h
      obtain rfl := Except.error.inj h
      rfl
    | ok text =>
      simp only [hdecode, bind, Except.bind, Except.mapError] at h
      cases h

inductive Written (t : FileTree) (p : Path) (text : Text) : Result → Prop
  | failed {fault : FileFault} (hno : ∀ loc, t.locate p = .ok loc → t.entry? loc = some .folder) :
    Written t p text (.error fault, t)
  | made {loc : Location} (hloc : t.locate p = .ok loc) (hfree : t.entry? loc ≠ some .folder) :
    Written t p text (.ok (), t.next.put loc (.file (Text.Utf8.encode text)))
  | refused {reason : Text} (hfate : .refused reason ∈ t.fates) :
    Written t p text (.error ⟨.system reason, p⟩, t.next)
  | torn {loc : Location} {reason : Text} {count : Nat} (hloc : t.locate p = .ok loc)
    (hfree : t.entry? loc ≠ some .folder) (hfate : .torn reason count ∈ t.fates) :
    Written t p text (.error ⟨.system reason, p⟩,
      t.next.put loc (.file ((Text.Utf8.encode text).take count)))

theorem written_writeText (t : FileTree) (p : Path) (text : Text) :
    Written t p text (t.writeText p text) := by
  rw [writeText]
  split
  · rename_i hfault
    exact .failed fun loc hloc ↦ by cases hfault.symm.trans hloc
  · rename_i loc hloc
    split
    · rename_i hfolder
      refine .failed fun loc' hloc' ↦ ?_
      obtain rfl := Except.ok.inj (hloc.symm.trans hloc')
      exact hfolder
    · rename_i hfree
      have hchanged := changed_change t p (·.put loc (.file (Text.Utf8.encode text)))
        fun count t ↦ t.put loc (.file ((Text.Utf8.encode text).take count))
      simp only
      generalize t.change p _ _ = result at hchanged ⊢
      cases hchanged with
      | made => exact .made hloc hfree
      | refused reason hfate => exact .refused hfate
      | torn reason count hfate => exact .torn hloc hfree hfate

inductive Moved (t : FileTree) (p q : Path) : Result → Prop
  | failed {fault : FileFault}
    (hfault : p.hasNull = false → q.hasNull = false → fault.isReported) :
    Moved t p q (.error fault, t)
  | made {loc goal : Location} {bytes : Bytes} (hloc : t.locate p = .ok loc)
    (hgoal : t.locate q = .ok goal) (hfile : t.entry? loc = some (.file bytes)) :
    Moved t p q (.ok (), (t.next.remove loc).put goal (.file bytes))
  | refused {reason : Text} (hfate : .refused reason ∈ t.fates) :
    Moved t p q (.error ⟨.system reason, q⟩, t.next)
  | torn {loc goal : Location} {bytes : Bytes} {reason : Text} {count : Nat}
    (hloc : t.locate p = .ok loc) (hgoal : t.locate q = .ok goal)
    (hfile : t.entry? loc = some (.file bytes)) (hfate : .torn reason count ∈ t.fates) :
    Moved t p q (.error ⟨.system reason, q⟩, t.next.put goal (.file (bytes.take count)))

theorem moved_moveFile (t : FileTree) (p q : Path) : Moved t p q (t.moveFile p q) := by
  rw [moveFile]
  split
  · rename_i fault hfault
    exact .failed fun hnull _ ↦ by rw [isReported_of_locate hfault, hnull]; rfl
  · rename_i fault hfault
    exact .failed fun _ hnull ↦ by rw [isReported_of_locate hfault, hnull]; rfl
  · rename_i loc goal hloc hgoal
    split
    · exact .failed fun _ _ ↦ rfl
    · exact .failed fun _ _ ↦ rfl
    · rename_i bytes hfile
      have hchanged := changed_change t q (fun t ↦ (t.remove loc).put goal (.file bytes))
        fun count t ↦ t.put goal (.file (bytes.take count))
      generalize t.change q _ _ = result at hchanged ⊢
      cases hchanged with
      | made => exact .made hloc hgoal hfile
      | refused reason hfate => exact .refused hfate
      | torn reason count hfate => exact .torn hloc hgoal hfile hfate

theorem WellFormed.move (h : t.WellFormed) (hfile : t.entry? loc = some (.file bytes))
    (habove : t.entry? above = some .folder) (hname : Path.IsName name)
    (hnone : t.entry? (above ++ [name]) = none) :
    ((t.remove loc).put (above ++ [name]) (.file bytes)).WellFormed := by
  have hne : loc ≠ above := by
    rintro rfl
    rw [hfile] at habove
    cases habove
  have hne' : loc ≠ above ++ [name] := by
    rintro rfl
    rw [hfile] at hnone
    cases hnone
  refine (h.remove_file hfile).put_new ?_ hname ?_
  · rw [entry?_remove_of_ne hne.symm, habove]
  · rw [entry?_remove_of_ne hne'.symm, hnone]

/-- The file of one location stands at another or the same, with these bytes. Beside it nothing is
changed but that folders are made and files are left at places that were free. -/
structure Relocated (t t' : FileTree) (loc goal : Location) (bytes : Bytes) (extra : Set Location) :
    Prop extends t.Later t' where
  file : t'.entry? goal = some (.file bytes)
  free : goal = loc ∨ t.entry? goal = none ∧ t'.entry? loc = none
  left : ∀ l ∈ extra, t.entry? l = none ∧ l ≠ goal ∧ ∃ part, t'.entry? l = some (.file part)
  others : ∀ l, l ≠ loc → l ≠ goal → l ∉ extra → t.Stays t' l

theorem ne_nil_of_file (hfile : t.entry? loc = some (.file bytes)) : loc ≠ [] := by
  rintro rfl
  rw [entry?_nil] at hfile
  cases hfile

theorem ne_nil_of_free (hfree : t.entry? loc = none) : loc ≠ [] := by
  rintro rfl
  rw [entry?_nil] at hfree
  cases hfree

theorem ne_of_file_of_free (hfile : t.entry? loc = some e) (hfree : t.entry? goal = none) :
    loc ≠ goal := by
  rintro rfl
  rw [hfile] at hfree
  cases hfree

namespace Relocated

theorem of_addsFolders (h : t.AddsFolders t') (hfile : t.entry? loc = some (.file bytes)) :
    t.Relocated t' loc loc bytes ∅ :=
  ⟨h.toLater, (h.stays loc).entry?_eq_some hfile, .inl rfl, nofun, fun l _ _ _ ↦ h.stays l⟩

theorem of_put (hfile : t.entry? loc = some (.file old)) :
    t.Relocated (t.next.put loc (.file bytes)) loc loc bytes ∅ :=
  ⟨(Later.next t).put _ _, entry?_put_self (ne_nil_of_file hfile), .inl rfl, nofun,
    fun _ hl _ _ ↦ .inl (entry?_put_of_ne hl)⟩

theorem of_move (hfile : t.entry? loc = some (.file bytes)) (hfree : t.entry? goal = none) :
    t.Relocated ((t.next.remove loc).put goal (.file bytes)) loc goal bytes ∅ := by
  have hne : loc ≠ goal := ne_of_file_of_free hfile hfree
  refine ⟨((Later.next t).remove _).put _ _, entry?_put_self (ne_nil_of_free hfree), .inr ⟨hfree, ?_⟩, nofun,
    fun l hl hl' _ ↦ .inl ?_⟩
  · rw [entry?_put_of_ne hne, entry?_remove_self (ne_nil_of_file hfile)]
  · rw [entry?_put_of_ne hl', entry?_remove_of_ne hl, entry?_next]

theorem of_torn_move {part : Bytes} (hfile : t.entry? loc = some (.file bytes))
    (hfree : t.entry? goal = none) :
    t.Relocated (t.next.put goal (.file part)) loc loc bytes {goal} := by
  have hne : loc ≠ goal := ne_of_file_of_free hfile hfree
  refine ⟨(Later.next t).put _ _, by rwa [entry?_put_of_ne hne], .inl rfl, fun l hl ↦ ?_,
    fun l _ _ hl ↦ .inl (entry?_put_of_ne hl)⟩
  obtain rfl : l = goal := hl
  exact ⟨hfree, hne.symm, part, entry?_put_self (ne_nil_of_free hfree)⟩

theorem none_of_none {goal' : Location} (h : t.Relocated t' loc loc bytes ∅)
    (hfree : t'.entry? goal' = none) : t.entry? goal' = none := by
  have hne : goal' ≠ loc := (ne_of_file_of_free h.file hfree).symm
  rcases h.others goal' hne hne (Set.notMem_empty goal') with heq | ⟨hnone, -⟩
  · rw [← heq, hfree]
  · exact hnone

/-- A file that stays where it is and then goes its way. -/
theorem trans {bytes' : Bytes} (h : t.Relocated t' loc loc bytes ∅)
    (h' : t'.Relocated t'' loc goal bytes' extra) : t.Relocated t'' loc goal bytes' extra := by
  refine ⟨h.toLater.trans h'.toLater, h'.file, ?_, fun l hl ↦ ?_, fun l hl hl' hl'' ↦
    (h.others l hl hl (Set.notMem_empty l)).trans (h'.others l hl hl' hl'')⟩
  · exact h'.free.imp_right fun ⟨hfree, hgone⟩ ↦ ⟨h.none_of_none hfree, hgone⟩
  · obtain ⟨hfree, hpart⟩ := h'.left l hl
    exact ⟨h.none_of_none hfree, hpart⟩

theorem entry?_eq_some (h : t.Relocated t' loc goal bytes extra) (hne : l ≠ loc)
    (hl : t.entry? l = some e) : t'.entry? l = some e := by
  refine (h.others l hne ?_ fun hextra ↦ ?_).entry?_eq_some hl
  · rintro rfl
    rcases h.free with heq | ⟨hfree, -⟩
    · exact hne heq
    · rw [hl] at hfree
      cases hfree
  · rw [(h.left l hextra).1] at hl
    cases hl

theorem foldersStay (h : t.Relocated t' loc goal bytes extra)
    (hfile : t.entry? loc = some (.file old)) : t.FoldersStay t' := by
  refine ⟨h.toLater, fun l hl ↦ h.entry?_eq_some ?_ hl⟩
  rintro rfl
  rw [hfile] at hl
  cases hl

end Relocated

end DiagramRepair.FileTree
