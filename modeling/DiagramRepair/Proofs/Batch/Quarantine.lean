import DiagramRepair.Batch.Run
import DiagramRepair.Proofs.File.Change

namespace DiagramRepair

theorem Batch.run_onFiles {α : Type} (f : FileTree → α × FileTree) (s : BatchState) :
    (Batch.onFiles f).run s = ((f s.files).1, { s with files := (f s.files).2 }) := rfl

namespace BatchRules

variable {path errorFolder : Path} {t t' : FileTree} {s s' : BatchState} {loc : Location}
  {bytes : Bytes} {moved : Except FileFault (Option Path)}

/-- What moving a document into the error folder comes to. A file is moved to a free place; in every
case folders may have been made before. -/
inductive Quarantined (path errorFolder : Path) (t : FileTree) :
    Except FileFault (Option Path) → FileTree → Prop
  | failed {fault : FileFault} {t' : FileTree} (hadds : t.AddsFolders t') (ht' : t'.WellFormed)
    (hfault : path.hasNull = false → errorFolder.hasNull = false → fault.isReported) :
    Quarantined path errorFolder t (.error fault) t'
  | taken {t' : FileTree} (hadds : t.AddsFolders t') (ht' : t'.WellFormed)
    (htaken : t'.exists? (errorFolder.child path.name)) :
    Quarantined path errorFolder t (.ok none) t'
  | moved {t' : FileTree} {loc goal : Location} {bytes : Bytes} (hadds : t.AddsFolders t')
    (ht' : t'.WellFormed) (hloc : t'.locate path = .ok loc)
    (hfile : t'.entry? loc = some (.file bytes))
    (hgoal : t'.locate (errorFolder.child path.name) = .ok goal)
    (hfree : t'.entry? goal = none) :
    Quarantined path errorFolder t (.ok (some (errorFolder.child path.name)))
      ((t'.next.remove loc).put goal (.file bytes))
  | torn {t' : FileTree} {loc goal : Location} {bytes : Bytes} {reason : Text} {count : Nat}
    (hadds : t.AddsFolders t') (ht' : t'.WellFormed) (hloc : t'.locate path = .ok loc)
    (hfile : t'.entry? loc = some (.file bytes))
    (hgoal : t'.locate (errorFolder.child path.name) = .ok goal)
    (hfree : t'.entry? goal = none) (hfate : .torn reason count ∈ t'.fates) :
    Quarantined path errorFolder t (.error ⟨.system reason, errorFolder.child path.name⟩)
      (t'.next.put goal (.file (bytes.take count)))

theorem quarantined_moveToErrorFolder (ht : t.WellFormed) (hfolder : errorFolder.Regular)
    (path : Path) : Quarantined path errorFolder t (moveToErrorFolder path errorFolder t).1
      (moveToErrorFolder path errorFolder t).2 := by
  have hmakes := FileTree.MakesFolder.of_ensureFolders ht hfolder
  rw [moveToErrorFolder]
  generalize t.ensureFolders errorFolder = made at hmakes
  obtain ⟨fault | _, t'⟩ := made
  · exact .failed hmakes.adds hmakes.wellFormed fun _ ↦ hmakes.isReported fault rfl
  · obtain ⟨hadds, ht', -, -⟩ := hmakes
    simp only
    split
    · rename_i htaken
      exact .taken hadds ht' htaken
    · rename_i htaken
      have hfree : ∀ goal, t'.locate (errorFolder.child path.name) = .ok goal →
          t'.entry? goal = none := by
        intro goal hgoal
        rw [FileTree.exists?, FileTree.at?, hgoal] at htaken
        simpa using htaken
      have hmoved := FileTree.moved_moveFile t' path (errorFolder.child path.name)
      generalize t'.moveFile path (errorFolder.child path.name) = result at hmoved
      cases hmoved with
      | failed hfault =>
        exact .failed hadds ht' fun hpath hnull ↦ hfault hpath (Path.hasNull_child hnull hpath)
      | refused => exact .failed (hadds.trans (.next t')) ht'.next fun _ _ ↦ rfl
      | made hloc hgoal hfile => exact .moved hadds ht' hloc hfile hgoal (hfree _ hgoal)
      | torn hloc hgoal hfile hfate =>
        exact .torn hadds ht' hloc hfile hgoal (hfree _ hgoal) hfate

theorem Quarantined.isReported {fault : FileFault}
    (h : Quarantined path errorFolder t (.error fault) t') (hpath : path.hasNull = false)
    (hnull : errorFolder.hasNull = false) : fault.isReported := by
  cases h with
  | failed _ _ hfault => exact hfault hpath hnull
  | torn => rfl

theorem Quarantined.wellFormed (h : Quarantined path errorFolder t moved t')
    (hfolder : errorFolder.Regular) : t'.WellFormed := by
  have hregular := hfolder.join (Path.regular_ofText path.name)
  cases h with
  | failed _ ht' | taken _ ht' => exact ht'
  | moved _ ht' _ hfile hgoal hfree =>
    obtain ⟨above, name, rfl, hname, habove⟩ := ht'.exists_of_free hregular hgoal hfree
    exact ht'.next.move hfile habove hname hfree
  | torn _ ht' _ _ hgoal hfree =>
    obtain ⟨above, name, rfl, hname, habove⟩ := ht'.exists_of_free hregular hgoal hfree
    exact ht'.next.put_new habove hname hfree

theorem quarantined_of_run (ht : s.files.WellFormed) (hfolder : errorFolder.Regular)
    (h : (Batch.onFiles (moveToErrorFolder path errorFolder)).run s = (moved, s')) :
    Quarantined path errorFolder s.files moved s'.files := by
  obtain ⟨rfl, rfl⟩ := Prod.mk.inj h
  exact quarantined_moveToErrorFolder ht hfolder path

theorem Quarantined.relocated (h : Quarantined path errorFolder t moved t')
    (hloc : t.locate path = .ok loc) (hfile : t.entry? loc = some (.file bytes)) :
    ∃ goal extra, t.Relocated t' loc goal bytes extra ∧
      (goal = loc ∨ t'.locate (errorFolder.child path.name) = .ok goal) ∧
      ∀ l ∈ extra, goal = loc ∧ moved.isOk = false ∧
        t'.locate (errorFolder.child path.name) = .ok l ∧ ∃ reason count,
          .torn reason count ∈ t.fates ∧ t'.entry? l = some (.file (bytes.take count)) := by
  cases h with
  | failed hadds | taken hadds =>
    exact ⟨loc, ∅, .of_addsFolders hadds hfile, .inl rfl, nofun⟩
  | moved hadds _ hloc' hfile' hgoal hfree =>
    obtain ⟨rfl, rfl⟩ := hadds.eq_of_file hloc hfile hloc' hfile'
    have hmoved := FileTree.Relocated.of_move hfile' hfree
    exact ⟨_, ∅, (FileTree.Relocated.of_addsFolders hadds hfile).trans hmoved,
      .inr ((hmoved.foldersStay hfile').locate hgoal), nofun⟩
  | @torn t₁ _ goal _ reason count hadds _ hloc' hfile' hgoal hfree hfate =>
    obtain ⟨rfl, rfl⟩ := hadds.eq_of_file hloc hfile hloc' hfile'
    have hleft : t₁.Relocated (t₁.next.put goal (.file (bytes.take count))) loc loc bytes {goal} :=
      .of_torn_move hfile' hfree
    refine ⟨loc, {goal}, (FileTree.Relocated.of_addsFolders hadds hfile).trans hleft, .inl rfl,
      fun l hl ↦ ?_⟩
    obtain rfl : l = goal := hl
    exact ⟨rfl, rfl, (hleft.foldersStay hfile').locate hgoal, reason, count,
      hadds.fates.subset hfate, FileTree.entry?_put_self (FileTree.ne_nil_of_free hfree)⟩

end BatchRules

end DiagramRepair
