import DiagramRepair.Proofs.Batch.Quarantine

namespace DiagramRepair

/-- A result as repairing the document gives it, before any move. -/
structure FileRepair.Unmoved (r : FileRepair) (path : Path) : Prop where
  file : r.file = path.toText
  movedTo : r.movedTo = none
  error : r.error = none

theorem Batch.run_bind {α β : Type} (m : Batch α) (k : α → Batch β) (s : BatchState) :
    (m >>= k).run s = (k (m.run s).1).run (m.run s).2 := rfl

theorem Batch.run_get (s : BatchState) : (get : Batch BatchState).run s = (s, s) := rfl

theorem Batch.run_ask {α : Type} (q : Asking α) (s : BatchState) :
    (Batch.ask q).run s = ((q.run s.asked).1, { s with asked := (q.run s.asked).2 }) := rfl

namespace BatchRules

variable [Nonces] {b : BatchRules} {path errorFolder p q : Path} {t t' t'' : FileTree} {s s' : BatchState}
  {r : FileRepair} {move : Bool} {e : FileEntry} {loc l : Location}
  {bytes old : Bytes} {result : Except DocumentFault FileRepair}

/-- Everything that repairing a document can do: what it reads, asks and writes, in order. -/
inductive FixRun (b : BatchRules) (path : Path) (s : BatchState) :
    Except DocumentFault FileRepair → BatchState → Prop
  | unreadable {fault : DocumentFault} (hread : s.files.readText path = .error fault) :
    FixRun b path s (.error fault) s
  | skipped {document : Text} {asked : Asked} (hread : s.files.readText path = .ok document)
    (hbefore : (b.checker.countInvalid document).run s.asked = (0, asked)) :
    FixRun b path s (.ok { file := path.toText, skipped := true }) { s with asked := asked }
  | kept {document : Text} {before after : Nat} {asked₁ asked₂ asked₃ : Asked}
    (hread : s.files.readText path = .ok document)
    (hbefore : (b.checker.countInvalid document).run s.asked = (before, asked₁))
    (hinvalid : before ≠ 0)
    (hcontent : (b.repairedText document).run asked₁ = (document, asked₂))
    (hafter : (b.checker.countInvalid document).run asked₂ = (after, asked₃)) :
    FixRun b path s
      (.ok { file := path.toText, invalidBefore := before, invalidAfter := after })
      { s with asked := asked₃ }
  | written {document content : Text} {before after : Nat} {asked₁ asked₂ asked₃ : Asked}
    {files : FileTree} (hread : s.files.readText path = .ok document)
    (hbefore : (b.checker.countInvalid document).run s.asked = (before, asked₁))
    (hinvalid : before ≠ 0)
    (hcontent : (b.repairedText document).run asked₁ = (content, asked₂))
    (hwrite : s.files.writeText path content = (.ok (), files))
    (hafter : (b.checker.countInvalid content).run asked₂ = (after, asked₃)) :
    FixRun b path s
      (.ok { file := path.toText, modified := true, invalidBefore := before
             invalidAfter := after })
      { s with files := files, asked := asked₃ }
  | unwritten {document content : Text} {before : Nat} {asked₁ asked₂ : Asked}
    {fault : FileFault} {files : FileTree} (hread : s.files.readText path = .ok document)
    (hbefore : (b.checker.countInvalid document).run s.asked = (before, asked₁))
    (hinvalid : before ≠ 0)
    (hcontent : (b.repairedText document).run asked₁ = (content, asked₂))
    (hwrite : s.files.writeText path content = (.error fault, files)) :
    FixRun b path s (.error (.file fault)) { s with files := files, asked := asked₂ }

theorem exists_fixRun (b : BatchRules) (path : Path) (s : BatchState) : ∃ result s',
    (b.fixFile path).run s = (result, s') ∧ FixRun b path s result s' := by
  rw [fixFile, Batch.run_bind, Batch.run_get]
  cases hread : s.files.readText path with
  | error fault => exact ⟨_, s, rfl, .unreadable hread⟩
  | ok document =>
    simp only
    rw [Batch.run_bind, Batch.run_ask]
    obtain ⟨before, asked₁, hbefore⟩ : ∃ before asked₁,
      (b.checker.countInvalid document).run s.asked = (before, asked₁) := ⟨_, _, rfl⟩
    simp only [hbefore]
    by_cases hinvalid : before = 0
    · rw [if_pos hinvalid]
      exact ⟨_, _, rfl, .skipped hread (hinvalid ▸ hbefore)⟩
    · rw [if_neg hinvalid, Batch.run_bind, Batch.run_ask]
      obtain ⟨content, asked₂, hcontent⟩ : ∃ content asked₂,
        (b.repairedText document).run asked₁ = (content, asked₂) := ⟨_, _, rfl⟩
      simp only [hcontent]
      by_cases hmodified : content = document
      · subst hmodified
        rw [if_neg (not_not.mpr rfl)]
        simp only [ne_eq, not_true_eq_false, decide_false]
        exact ⟨_, _, rfl, .kept hread hbefore hinvalid hcontent rfl⟩
      · rw [if_pos hmodified, Batch.run_bind, Batch.run_onFiles]
        simp only [ne_eq, hmodified, not_false_eq_true, decide_true]
        cases hwrite : s.files.writeText path content with
        | mk written files =>
          cases written with
          | error fault => exact ⟨_, _, rfl, .unwritten hread hbefore hinvalid hcontent hwrite⟩
          | ok u => exact ⟨_, _, rfl, .written hread hbefore hinvalid hcontent hwrite rfl⟩

theorem fixRun_of_run (h : (b.fixFile path).run s = (result, s')) :
    FixRun b path s result s' := by
  obtain ⟨result', s'', hrun, hfix⟩ := exists_fixRun b path s
  obtain ⟨rfl, rfl⟩ := Prod.mk.inj (hrun.symm.trans h)
  exact hfix

inductive Fixed (b : BatchRules) (path : Path) (t : FileTree) :
    Except DocumentFault FileRepair → FileTree → Prop
  | unreadable {fault : DocumentFault} (hread : t.readText path = .error fault) :
    Fixed b path t (.error fault) t
  | kept {r : FileRepair} {document : Text} (hread : t.readText path = .ok document)
    (hr : r.Unmoved path) (hmodified : r.modified = false) : Fixed b path t (.ok r) t
  | written {r : FileRepair} {document content : Text} {asked : Asked} {loc : Location}
    {old : Bytes} (hread : t.readText path = .ok document) (hr : r.Unmoved path)
    (hmodified : r.modified) (hcontent : ((b.repairedText document).run asked).1 = content)
    (hloc : t.locate path = .ok loc) (hfile : t.entry? loc = some (.file old)) :
    Fixed b path t (.ok r) (t.next.put loc (.file (Text.Utf8.encode content)))
  | refused {document reason : Text} (hread : t.readText path = .ok document)
    (hfate : .refused reason ∈ t.fates) :
    Fixed b path t (.error (.file ⟨.system reason, path⟩)) t.next
  | torn {document content reason : Text} {asked : Asked} {loc : Location} {old : Bytes}
    {count : Nat} (hread : t.readText path = .ok document)
    (hcontent : ((b.repairedText document).run asked).1 = content)
    (hloc : t.locate path = .ok loc) (hfile : t.entry? loc = some (.file old))
    (hfate : .torn reason count ∈ t.fates) :
    Fixed b path t (.error (.file ⟨.system reason, path⟩))
      (t.next.put loc (.file ((Text.Utf8.encode content).take count)))

theorem FixRun.fixed (h : FixRun b path s result s') : Fixed b path s.files result s'.files := by
  cases h with
  | unreadable hread => exact .unreadable hread
  | skipped hread | kept hread => exact .kept hread ⟨rfl, rfl, rfl⟩ rfl
  | written hread _ _ hcontent hwrite =>
    obtain ⟨loc, old, hloc, hfile⟩ := FileTree.exists_of_readText hread
    cases hwrite ▸ FileTree.written_writeText s.files path _ with
    | made hloc' =>
      obtain rfl := Except.ok.inj (hloc.symm.trans hloc')
      exact .written hread ⟨rfl, rfl, rfl⟩ rfl (congrArg Prod.fst hcontent) hloc hfile
  | unwritten hread _ _ hcontent hwrite =>
    obtain ⟨loc, old, hloc, hfile⟩ := FileTree.exists_of_readText hread
    cases hwrite ▸ FileTree.written_writeText s.files path _ with
    | failed hno =>
      rw [hno loc hloc] at hfile
      cases hfile
    | refused hfate => exact .refused hread hfate
    | torn hloc' _ hfate =>
      obtain rfl := Except.ok.inj (hloc.symm.trans hloc')
      exact .torn hread (congrArg Prod.fst hcontent) hloc hfile hfate

theorem FixRun.told (h : FixRun b path s result s') :
    s'.heard = s.heard ∧ s'.listeners = s.listeners := by
  cases h <;> exact ⟨rfl, rfl⟩

theorem fixed_of_run (h : (b.fixFile path).run s = (result, s')) :
    Fixed b path s.files result s'.files ∧ s'.heard = s.heard ∧ s'.listeners = s.listeners :=
  ⟨(fixRun_of_run h).fixed, (fixRun_of_run h).told⟩

theorem Fixed.unmoved (h : Fixed b path t (.ok r) t') : r.Unmoved path := by
  cases h <;> assumption

theorem Fixed.exists_readText (h : Fixed b path t (.ok r) t') :
    ∃ document, t.readText path = .ok document := by
  cases h with
  | kept hread | written hread => exact ⟨_, hread⟩

/-- Nothing is changed for a document that is no file. -/
theorem Fixed.eq_self (h : Fixed b path t result t')
    (hno : ∀ bytes, t.readBytes path ≠ .ok bytes) : t' = t := by
  cases h with
  | unreadable => rfl
  | kept hread | written hread | refused hread | torn hread =>
    obtain ⟨bytes, -, hbytes, -⟩ := FileTree.readText_eq_ok.mp hread
    exact absurd hbytes (hno bytes)

theorem Fixed.wellFormed (h : Fixed b path t result t') (ht : t.WellFormed) : t'.WellFormed := by
  cases h with
  | unreadable | kept => exact ht
  | refused => exact ht.next
  | written _ _ _ _ _ hfile | torn _ _ _ hfile => exact ht.next.put_file hfile

theorem Fixed.isReported {fault : DocumentFault} (h : Fixed b path t (.error fault) t')
    (hnull : path.hasNull = false) : fault.isReported := by
  cases h with
  | unreadable hread => exact FileTree.isReported_of_readText hread hnull
  | refused | torn => rfl

/-- What comes of one document of a folder: its result, the fault of a move that failed, and the
state after it. -/
inductive Treated (b : BatchRules) (move : Bool) (errorFolder path : Path) (s : BatchState) :
    FileRepair → Option FileFault → BatchState → Prop
  | failed {fault : DocumentFault} {s' : BatchState}
    (hfix : (b.fixFile path).run s = (.error fault, s')) :
    Treated b move errorFolder path s (failure path fault) none s'
  | left {r : FileRepair} {s' : BatchState} (hfix : (b.fixFile path).run s = (.ok r, s'))
    (hleft : r.invalidAfter = 0 ∨ move = false) : Treated b move errorFolder path s r none s'
  | moved {r : FileRepair} {target : Option Path} {s₁ s' : BatchState}
    (hfix : (b.fixFile path).run s = (.ok r, s₁)) (hinvalid : 0 < r.invalidAfter)
    (hmove : move = true)
    (htarget : (Batch.onFiles (moveToErrorFolder path errorFolder)).run s₁ = (.ok target, s')) :
    Treated b move errorFolder path s { r with movedTo := target.map Path.toText } none s'
  | stuck {r : FileRepair} {fault : FileFault} {s₁ s' : BatchState}
    (hfix : (b.fixFile path).run s = (.ok r, s₁)) (hinvalid : 0 < r.invalidAfter)
    (hmove : move = true)
    (hfault : (Batch.onFiles (moveToErrorFolder path errorFolder)).run s₁ = (.error fault, s'))
    (hreported : fault.isReported) :
    Treated b move errorFolder path s r (some fault) s'

def errorEntries (r : FileRepair) (fault? : Option FileFault) : List FileError :=
  (r.error.map fun message ↦ ⟨r.file, message⟩).toList ++
    (fault?.map fun fault ↦ ⟨r.file, Text.of "Move failed: " ++ fault.message⟩).toList

/-- The document is left with invalid blocks and is to go to an error folder that no file can be
looked up in. -/
structure Unmovable (b : BatchRules) (move : Bool) (errorFolder path : Path) (s : BatchState) :
    Prop where
  move : move = true
  hasNull : errorFolder.hasNull
  invalid : ∃ r s', (b.fixFile path).run s = (.ok r, s') ∧ 0 < r.invalidAfter

/-- A document is treated, or the run breaks off at it. -/
theorem exists_fixListed (b : BatchRules) (move : Bool) (ht : s.files.WellFormed)
    (hfolder : errorFolder.Regular) (hpath : path.hasNull = false) :
    (∃ r fault? s',
      (b.fixListed move errorFolder path).run s = (.ok (r, errorEntries r fault?), s') ∧
      Treated b move errorFolder path s r fault? s') ∨
    (∃ s', (b.fixListed move errorFolder path).run s = (.error .nullByte, s')) ∧
      Unmovable b move errorFolder path s := by
  obtain ⟨result, s₁, hrun, hfix⟩ := exists_fixRun b path s
  rw [fixListed, Batch.run_bind, hrun]
  cases result with
  | error fault =>
    have hreported := hfix.fixed.isReported hpath
    simp only [hreported, if_true]
    exact .inl ⟨_, none, s₁, rfl, .failed hrun⟩
  | ok r =>
    obtain ⟨hfile, hmoved, herror⟩ := hfix.fixed.unmoved
    have hnone : errorEntries r none = [] := by simp [errorEntries, herror]
    simp only
    split
    · rename_i hleft
      refine .inl ⟨r, none, s₁, by rw [hnone]; rfl, .left hrun ?_⟩
      simpa using hleft
    · rename_i hleft
      rw [Bool.not_eq_true, Bool.or_eq_false_iff, decide_eq_false_iff_not] at hleft
      have hinvalid : 0 < r.invalidAfter := Nat.pos_of_ne_zero hleft.1
      have hmove : move = true := by simpa using hleft.2
      rw [Batch.run_bind]
      generalize htarget :
        (Batch.onFiles (moveToErrorFolder path errorFolder)).run s₁ = quarantined
      obtain ⟨fault | target, s'⟩ := quarantined
      · by_cases hreported : fault.isReported
        · refine .inl ⟨r, some fault, s', ?_, .stuck hrun hinvalid hmove htarget hreported⟩
          simp [errorEntries, herror, hfile, hreported]
          rfl
        · refine .inr ⟨⟨s', ?_⟩, hmove, ?_, r, s₁, hrun, hinvalid⟩
          · simp only [hreported, Bool.false_eq_true, if_false]
            rfl
          · have hquarantined := quarantined_of_run (hfix.fixed.wellFormed ht) hfolder htarget
            rw [← Bool.not_eq_false]
            exact fun hnull ↦ hreported (hquarantined.isReported hpath hnull)
      · exact .inl ⟨_, none, s', by rw [errorEntries, herror]; rfl,
          .moved hrun hinvalid hmove htarget⟩

/-- What a document holds after its repair: the repaired text if it was modified, and else what it
held, unless the write broke off. -/
def Rewritten (b : BatchRules) (path : Path) (t : FileTree) (r : FileRepair) (old bytes : Bytes) :
    Prop :=
  if r.modified then ∃ document asked, t.readText path = .ok document ∧
    bytes = Text.Utf8.encode ((b.repairedText document).run asked).1
  else bytes = old ∨ ∃ document asked reason count, t.readText path = .ok document ∧
    .torn reason count ∈ t.fates ∧ r.error = some reason ∧
    bytes = (Text.Utf8.encode ((b.repairedText document).run asked).1).take count

def resultOf (path : Path) : Except DocumentFault FileRepair → FileRepair
  | .ok r => r
  | .error fault => failure path fault

theorem Fixed.relocated (h : Fixed b path t result t') (hloc : t.locate path = .ok loc)
    (hfile : t.entry? loc = some (.file old)) : ∃ bytes,
      t.Relocated t' loc loc bytes ∅ ∧ Rewritten b path t (resultOf path result) old bytes := by
  cases h with
  | unreadable => exact ⟨old, .of_addsFolders (.refl t) hfile, .inl rfl⟩
  | refused => exact ⟨old, .of_addsFolders (.next t) hfile, .inl rfl⟩
  | kept _ _ hmodified =>
    refine ⟨old, .of_addsFolders (.refl t) hfile, ?_⟩
    rw [Rewritten, resultOf, hmodified]
    exact .inl rfl
  | written hread _ hmodified hcontent hloc' hfile' =>
    obtain rfl := Except.ok.inj (hloc.symm.trans hloc')
    refine ⟨_, .of_put hfile', ?_⟩
    rw [Rewritten, resultOf, hmodified]
    exact ⟨_, _, hread, by rw [hcontent]⟩
  | torn hread hcontent hloc' hfile' hfate =>
    obtain rfl := Except.ok.inj (hloc.symm.trans hloc')
    exact ⟨_, .of_put hfile', .inr ⟨_, _, _, _, hread, hfate, rfl, by rw [hcontent]⟩⟩

/-- The place where a treated document may end up: where it was, or in the error folder. -/
def Placed (move : Bool) (target : Path) (r : FileRepair) (t : FileTree) (loc goal : Location) :
    Prop :=
  goal = loc ∨ move = true ∧ 0 < r.invalidAfter ∧ t.locate target = .ok goal

/-- What a move that broke off has left in the error folder: the beginning of the document, which is
still in its place. -/
structure LeftCopy (move : Bool) (path target : Path) (r : FileRepair) (t t' : FileTree)
    (l : Location) : Prop where
  move : move = true
  invalid : 0 < r.invalidAfter
  movedTo : r.movedTo = none
  locate : t'.locate target = .ok l
  copy : ∃ loc bytes reason count, t.locate path = .ok loc ∧
    t'.entry? loc = some (.file bytes) ∧ .torn reason count ∈ t.fates ∧
    t'.entry? l = some (.file (bytes.take count))

/-- What a treated document leaves of the files, given its result. -/
inductive Leaves (b : BatchRules) (move : Bool) (errorFolder path : Path) (t : FileTree) :
    FileRepair → FileTree → Prop
  | fixed {result : Except DocumentFault FileRepair} {t' : FileTree}
    (hfixed : Fixed b path t result t') :
    Leaves b move errorFolder path t (resultOf path result) t'
  | moved {r : FileRepair} {target : Option Path} {t₁ t' : FileTree}
    (hfixed : Fixed b path t (.ok r) t₁) (hmove : move = true) (hinvalid : 0 < r.invalidAfter)
    (htarget : Quarantined path errorFolder t₁ (.ok target) t') :
    Leaves b move errorFolder path t { r with movedTo := target.map Path.toText } t'
  | stuck {r : FileRepair} {fault : FileFault} {t₁ t' : FileTree}
    (hfixed : Fixed b path t (.ok r) t₁) (hmove : move = true) (hinvalid : 0 < r.invalidAfter)
    (htarget : Quarantined path errorFolder t₁ (.error fault) t') :
    Leaves b move errorFolder path t r t'

theorem Treated.leaves {fault? : Option FileFault}
    (h : Treated b move errorFolder path s r fault? s') (ht : s.files.WellFormed)
    (hfolder : errorFolder.Regular) : Leaves b move errorFolder path s.files r s'.files := by
  cases h with
  | failed hfix => exact .fixed (fixed_of_run hfix).1
  | left hfix => exact .fixed (fixed_of_run hfix).1
  | moved hfix hinvalid hmove htarget =>
    have hfixed := (fixed_of_run hfix).1
    exact .moved hfixed hmove hinvalid
      (quarantined_of_run (hfixed.wellFormed ht) hfolder htarget)
  | stuck hfix hinvalid hmove hfault =>
    have hfixed := (fixed_of_run hfix).1
    exact .stuck hfixed hmove hinvalid
      (quarantined_of_run (hfixed.wellFormed ht) hfolder hfault)

theorem Treated.told {fault? : Option FileFault}
    (h : Treated b move errorFolder path s r fault? s') :
    s'.heard = s.heard ∧ s'.listeners = s.listeners := by
  cases h with
  | failed hfix | left hfix => exact (fixed_of_run hfix).2
  | moved hfix _ _ htarget | stuck hfix _ _ htarget =>
    obtain ⟨-, rfl⟩ := Prod.mk.inj htarget
    exact (fixed_of_run hfix).2

namespace Leaves

variable (h : Leaves b move errorFolder path t r t')

include h

theorem wellFormed (ht : t.WellFormed) (hfolder : errorFolder.Regular) : t'.WellFormed := by
  cases h with
  | fixed hfixed => exact hfixed.wellFormed ht
  | moved _ _ _ htarget | stuck _ _ _ htarget => exact htarget.wellFormed hfolder

theorem eq_self (hno : ∀ bytes, t.readBytes path ≠ .ok bytes) : t' = t := by
  have hunread : ∀ r₁ t', ¬ Fixed b path t (.ok r₁) t' := by
    intro r₁ t' hfixed
    obtain ⟨document, hread⟩ := hfixed.exists_readText
    obtain ⟨bytes, -, hbytes, -⟩ := FileTree.readText_eq_ok.mp hread
    exact hno bytes hbytes
  cases h with
  | fixed hfixed => exact hfixed.eq_self hno
  | moved hfixed | stuck hfixed => exact absurd hfixed (hunread _ _)

/-- The file of a document stays in its place, or it is moved to a free place in the error folder
if that is asked for and invalid blocks are left. -/
theorem relocated (hloc : t.locate path = .ok loc) (hfile : t.entry? loc = some (.file old)) :
    ∃ goal bytes extra, t.Relocated t' loc goal bytes extra ∧
      Placed move (errorFolder.child path.name) r t' loc goal ∧
      Rewritten b path t r old bytes ∧
      ∀ l ∈ extra, LeftCopy move path (errorFolder.child path.name) r t t' l := by
  cases h with
  | fixed hfixed =>
    obtain ⟨bytes, hkept, hbytes⟩ := hfixed.relocated hloc hfile
    exact ⟨loc, bytes, ∅, hkept, .inl rfl, hbytes, nofun⟩
  | moved hfixed hmove hinvalid htarget =>
    obtain ⟨bytes, hkept, hbytes⟩ := hfixed.relocated hloc hfile
    obtain ⟨goal, extra, hmoved, hgoal, hextra⟩ :=
      htarget.relocated ((hkept.foldersStay hfile).locate hloc) hkept.file
    exact ⟨goal, bytes, extra, hkept.trans hmoved,
      hgoal.imp_right fun hgoal ↦ ⟨hmove, hinvalid, hgoal⟩, hbytes,
      fun l hl ↦ (Bool.false_ne_true (hextra l hl).2.1.symm).elim⟩
  | stuck hfixed hmove hinvalid htarget =>
    obtain ⟨bytes, hkept, hbytes⟩ := hfixed.relocated hloc hfile
    obtain ⟨goal, extra, hmoved, hgoal, hextra⟩ :=
      htarget.relocated ((hkept.foldersStay hfile).locate hloc) hkept.file
    refine ⟨goal, bytes, extra, hkept.trans hmoved,
      hgoal.imp_right fun hgoal ↦ ⟨hmove, hinvalid, hgoal⟩, hbytes, fun l hl ↦ ?_⟩
    obtain ⟨hgoal', -, hlocate, reason, count, hfate, hcopy⟩ := hextra l hl
    subst hgoal'
    exact ⟨hmove, hinvalid, hfixed.unmoved.movedTo, hlocate, goal, bytes, reason, count, hloc,
      hmoved.file, hkept.fates.subset hfate, hcopy⟩

theorem relocated_or_eq : (∃ loc old goal bytes extra, t.locate path = .ok loc ∧
    t.entry? loc = some (.file old) ∧ t.Relocated t' loc goal bytes extra) ∨ t' = t := by
  by_cases hread : ∃ old, t.readBytes path = .ok old
  · obtain ⟨old, hread⟩ := hread
    obtain ⟨loc, hloc, hfile, -⟩ := FileTree.readBytes_eq_ok.mp hread
    obtain ⟨goal, bytes, extra, hrelocated, -⟩ := h.relocated hloc hfile
    exact .inl ⟨loc, old, goal, bytes, extra, hloc, hfile, hrelocated⟩
  · exact .inr (h.eq_self fun old hold ↦ hread ⟨old, hold⟩)

theorem entry?_eq_some (hne : t.locate path ≠ .ok l) (hl : t.entry? l = some e) :
    t'.entry? l = some e := by
  rcases h.relocated_or_eq with ⟨loc, old, goal, bytes, extra, hloc, -, hrelocated⟩ | heq
  · refine hrelocated.entry?_eq_some ?_ hl
    rintro rfl
    exact hne hloc
  · rwa [heq]

theorem foldersStay : t.FoldersStay t' := by
  rcases h.relocated_or_eq with ⟨loc, old, goal, bytes, extra, -, hfile, hrelocated⟩ | heq
  · exact hrelocated.foldersStay hfile
  · rw [heq]
    exact .refl t

end Leaves

end BatchRules

end DiagramRepair
