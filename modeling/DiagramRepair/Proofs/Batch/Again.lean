import DiagramRepair.Proofs.Batch.Kept
import DiagramRepair.Proofs.Refine.Written
import DiagramRepair.Proofs.Text.Utf8
import DiagramRepair.Proofs.Validation

namespace DiagramRepair

def FileRepair.Clean (r : FileRepair) : Prop :=
  r.skipped ∨ r.error = none ∧ r.invalidAfter = 0

def rejectedCount (f : Text → Verdict) (document : Text) : Nat :=
  (closedBlocks document).countP fun content ↦ !(f content).accepts

theorem rejectedCount_of_run {f : Text → Verdict} {document : Text} {n : Nat} {asked asked' : Asked}
    (h : ((Checker.ofFunction f).countInvalid document).run asked = (n, asked')) :
    rejectedCount f document = n := by
  rw [run_countInvalid] at h
  exact congrArg Prod.fst h

namespace FileTree

variable {t t' : FileTree} {p : Path} {loc : Location} {bytes old : Bytes} {text : Text}

theorem cr_not_mem_of_readText (h : t.readText p = .ok text) : '\r' ∉ text := by
  obtain ⟨-, decoded, -, -, rfl⟩ := readText_eq_ok.mp h
  exact Text.not_mem_unifyLineEnds decoded

/-- What is written without carriage returns is read again as it is. -/
theorem readText_of_writeText {document : Text} (hread : t.readText p = .ok document)
    (hwrite : t.writeText p text = (.ok (), t')) (htext : '\r' ∉ text) :
    t'.readText p = .ok text := by
  obtain ⟨bytes, -, hbytes, -⟩ := readText_eq_ok.mp hread
  obtain ⟨loc, hloc, hfile, hlocked⟩ := readBytes_eq_ok.mp hbytes
  cases hwrite ▸ written_writeText t p text with
  | made hloc' =>
    obtain rfl := Except.ok.inj (hloc.symm.trans hloc')
    have hput : t.Relocated (t.next.put loc (.file (Text.Utf8.encode text))) loc loc
      (Text.Utf8.encode text) ∅ := .of_put hfile
    have hwritten : (t.next.put loc (.file (Text.Utf8.encode text))).readBytes p =
        .ok (Text.Utf8.encode text) :=
      readBytes_eq_ok.mpr ⟨loc, (hput.foldersStay hfile).locate hloc, hput.file, hlocked⟩
    exact readText_eq_ok.mpr
      ⟨_, text, hwritten, Text.Utf8.decode_encode text, Text.unifyLineEnds_eq_self htext⟩

theorem exists?_of_readBytes (h : t.readBytes p = .ok bytes) : t.exists? p := by
  obtain ⟨loc, hloc, hfile, -⟩ := readBytes_eq_ok.mp h
  rw [BatchRules.exists?_of_locate hloc, hfile]
  rfl

end FileTree

namespace BatchRules

section

variable {f : Text → Verdict} {settings : Settings} {b : BatchRules}
  {path errorFolder folder p : Path} {t t' : FileTree} {s s' s₁ : BatchState} {r : FileRepair}
  {move : Bool} {stop : List FileRepair → Bool} {fault? : Option FileFault}
  {done paths : List Path} {outcomes : List Outcome} {bytes : Bytes} {document : Text}
  {home l : Location}

/-- What is said of a document that can be read, and the files after it. A document that is not
skipped reads as the text in which the blocks left were counted. -/
inductive Judged (f : Text → Verdict) (path : Path) (t : FileTree) : FileRepair → FileTree → Prop
  | skipped {document : Text} (hread : t.readText path = .ok document)
    (hcount : rejectedCount f document = 0) :
    Judged f path t { file := path.toText, skipped := true } t
  | repaired {document content : Text} {modified : Bool} {t' : FileTree}
    (hread : t.readText path = .ok document) (hcount : rejectedCount f document ≠ 0)
    (hread' : t'.readText path = .ok content) :
    Judged f path t
      { file := path.toText, modified := modified, invalidBefore := rejectedCount f document
        invalidAfter := rejectedCount f content } t'

/-- The document can be read, and none of its closed blocks is rejected. -/
def Passes (f : Text → Verdict) (t : FileTree) (p : Path) : Prop :=
  ∃ document, t.readText p = .ok document ∧ rejectedCount f document = 0

theorem Passes.exists_readBytes (h : Passes f t p) : ∃ bytes, t.readBytes p = .ok bytes := by
  obtain ⟨document, hread, -⟩ := h
  obtain ⟨bytes, -, hbytes, -⟩ := FileTree.readText_eq_ok.mp hread
  exact ⟨bytes, hbytes⟩

theorem Passes.congr (h : Passes f t p) (hread : t'.readBytes p = t.readBytes p) :
    Passes f t' p := by
  rw [Passes, FileTree.readText, hread]
  exact h

theorem Judged.passes (h : Judged f path t r t') (hr : r.invalidAfter = 0) : Passes f t' path := by
  cases h with
  | skipped hread hcount => exact ⟨_, hread, hcount⟩
  | repaired _ _ hread' => exact ⟨_, hread', hr⟩

theorem Judged.invalidAfter_of_clean (h : Judged f path t r t') (hr : r.Clean) :
    r.invalidAfter = 0 := by
  cases h with
  | skipped => rfl
  | repaired =>
    rcases hr with hskipped | ⟨-, hzero⟩
    · cases hskipped
    · exact hzero

def Calm (f : Text → Verdict) (t : FileTree) (p : Path) : Prop :=
  Passes f t p ∨ ∃ fault, t.readText p = .error fault

theorem Calm.congr (h : Calm f t p) (hread : t'.readBytes p = t.readBytes p) : Calm f t' p := by
  refine h.imp (fun hpasses ↦ hpasses.congr hread) ?_
  rintro ⟨fault, hfault⟩
  exact ⟨fault, (FileTree.readText_congr hread).trans hfault⟩

variable [Nonces]

theorem cr_not_mem_repairedText (b : BatchRules) (h : '\r' ∉ document) (asked : Asked) :
    '\r' ∉ ((b.repairedText document).run asked).1 := by
  have hwritten : isWritten '\r' = false := by decide
  refine (writesLines_refine (some b.checker) _ b.settings.deepRepair asked).not_mem hwritten
    (by decide) ?_
  split
  · exact MathDelimiter.writes_cleanup document _ hwritten h
  · exact h

theorem judged_of_run (h : (fixFile ⟨.ofFunction f, settings⟩ path).run s = (.ok r, s')) :
    Judged f path s.files r s'.files := by
  cases fixRun_of_run h with
  | skipped hread hbefore => exact .skipped hread (rejectedCount_of_run hbefore)
  | kept hread hbefore hinvalid _ hafter =>
    obtain rfl := rejectedCount_of_run hbefore
    obtain rfl := rejectedCount_of_run hafter
    exact .repaired hread hinvalid hread
  | written hread hbefore hinvalid hcontent hwrite hafter =>
    obtain rfl := rejectedCount_of_run hbefore
    obtain rfl := rejectedCount_of_run hafter
    obtain rfl := congrArg Prod.fst hcontent
    have hdocument := FileTree.cr_not_mem_of_readText hread
    exact .repaired hread hinvalid
      (FileTree.readText_of_writeText hread hwrite (cr_not_mem_repairedText _ hdocument _))

theorem Treated.file (h : Treated b move errorFolder path s r fault? s') :
    r.file = path.toText := by
  cases h with
  | failed => rfl
  | left hfix | moved hfix | stuck hfix => exact (fixed_of_run hfix).1.unmoved.file

theorem Treated.passes
    (h : Treated ⟨.ofFunction f, settings⟩ move errorFolder path s r fault? s') (hr : r.Clean) :
    Passes f s'.files path := by
  cases h with
  | failed =>
    rcases hr with hskipped | ⟨herror, -⟩
    · cases hskipped
    · cases herror
  | left hfix =>
    have hjudged := judged_of_run hfix
    exact hjudged.passes (hjudged.invalidAfter_of_clean hr)
  | moved hfix hinvalid | stuck hfix hinvalid =>
    exact absurd ((judged_of_run hfix).invalidAfter_of_clean hr) (Nat.ne_of_gt hinvalid)

theorem Leaves.readBytes (h : Leaves b move errorFolder path t r t')
    (hne : t.locate path ≠ t.locate p) (hbytes : t.readBytes p = .ok bytes) :
    t'.readBytes p = .ok bytes := by
  obtain ⟨l, hl, hfile, -⟩ := FileTree.readBytes_eq_ok.mp hbytes
  rw [FileTree.readBytes_congr h.foldersStay hl, hbytes]
  rw [hfile, h.entry?_eq_some (hl ▸ hne) hfile]

/-- Once the first document is treated, the others leave it alone. -/
theorem TreatedAll.readBytes_of_cons (h : TreatedAll b move errorFolder stop s₁ done outcomes s')
    (ht : s₁.files.WellFormed) (hfolder : errorFolder.Regular) (hstay : t.FoldersStay s₁.files)
    (hdone : Distinct t (path :: done)) (hpath : s₁.files.exists? path) :
    s'.files.readBytes path = s₁.files.readBytes path := by
  obtain ⟨loc, hloc, -⟩ := hdone.isSome path List.mem_cons_self
  rw [exists?_of_locate (hstay.locate hloc)] at hpath
  obtain ⟨e, he⟩ := Option.isSome_iff_exists.mp hpath
  refine FileTree.readBytes_congr (h.foldersStay ht hfolder) (hstay.locate hloc) ?_
  rw [he, h.entry?_eq_some ht hfolder (fun q hq ↦ ?_) he]
  obtain ⟨l', hl', hne, -⟩ := hdone.of_cons hloc q hq
  exact ⟨l', hstay.locate hl', hne⟩

theorem TreatedAll.file (h : TreatedAll b move errorFolder stop s done outcomes s') :
    outcomes.map (fun o ↦ o.1.file) = done.map Path.toText := by
  induction h with
  | nil => rfl
  | cons _ htreated _ ih => rw [List.map_cons, List.map_cons, ih, htreated.file]

/-- Whatever the run says is clean passes when the run is over. -/
theorem TreatedAll.passes
    (h : TreatedAll ⟨.ofFunction f, settings⟩ move errorFolder stop s done outcomes s')
    (ht : s.files.WellFormed) (hfolder : errorFolder.Regular) (hdone : Distinct s.files done)
    (hmem : (p, r) ∈ done.zip (outcomes.map Prod.fst)) (hr : r.Clean) : Passes f s'.files p := by
  induction h with
  | nil => cases hmem
  | cons _ htreated hrest ih =>
    have hleaves := htreated.leaves ht hfolder
    have ht₁ := hleaves.wellFormed ht hfolder
    rw [List.map_cons, List.zip_cons_cons, List.mem_cons] at hmem
    rcases hmem with heq | hmem
    · obtain ⟨rfl, rfl⟩ := Prod.mk.inj heq
      have hpasses := htreated.passes hr
      obtain ⟨bytes, hbytes⟩ := hpasses.exists_readBytes
      exact hpasses.congr (hrest.readBytes_of_cons ht₁ hfolder hleaves.foldersStay hdone
        (FileTree.exists?_of_readBytes hbytes))
    · exact ih ht₁ (hdone.after hleaves) hmem

section

variable {outcomes' : List Outcome} {stop' : List FileRepair → Bool} {rest : List Path}
  {s₂ : BatchState}
  (hrun : TreatedAll ⟨.ofFunction f, settings⟩ move errorFolder stop s done outcomes s₁)
  (ht : s.files.WellFormed) (hfolder : errorFolder.Regular)
  (hhome : s.files.locate folder = .ok home)
  (hlists : Lists s.files folder errorFolder (done ++ rest))
  (hentries : s'.files.entries = s₁.files.entries) (hmount : s'.files.mount = s₁.files.mount)
  (hhome' : s'.files.locate folder = .ok home) (hlists' : Lists s'.files folder errorFolder paths)

include hrun ht hfolder hhome hlists hentries hmount hhome' hlists'

end

end

section

attribute [local instance] Nonces.zeros

end

end BatchRules

end DiagramRepair
