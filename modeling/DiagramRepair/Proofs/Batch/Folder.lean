import DiagramRepair.Proofs.Batch.Document
import DiagramRepair.Proofs.Batch.Listing

namespace DiagramRepair

abbrev Outcome := FileRepair × Option FileFault

theorem Listener.callAll_eq (r : FileRepair) (ls : List Listener) :
    Listener.callAll r ls = ls.map fun l ↦ { l with told := l.told ++ [r] } := by
  induction ls with
  | nil => rfl
  | cons l ls ih =>
    rw [callAll, call]
    cases l.fails l.told r
    · exact congrArg _ ih
    · exact congrArg _ ih

theorem Batch.run_notify (r : FileRepair) (s : BatchState) : (Batch.notify r).run s =
    ((), { s with heard := s.heard ++ [r], listeners := Listener.callAll r s.listeners }) := rfl

namespace BatchRules

variable {b : BatchRules} {path errorFolder folder p q : Path} {t t' : FileTree}
  {s s' s₁ : BatchState} {r : FileRepair} {move : Bool} {stop : List FileRepair → Bool}
  {home loc l : Location} {e : FileEntry} {paths done rest : List Path} {names : List Text}
  {outcomes : List Outcome} {fault? : Option FileFault} {report : BatchReport}

/-- The documents were treated one after the other, none of them after a stop. -/
inductive TreatedAll [Nonces] (b : BatchRules) (move : Bool) (errorFolder : Path)
    (stop : List FileRepair → Bool) : BatchState → List Path → List Outcome → BatchState → Prop
  | nil (s : BatchState) : TreatedAll b move errorFolder stop s [] [] s
  | cons {s s₁ s' : BatchState} {path : Path} {paths : List Path} {r : FileRepair}
    {fault? : Option FileFault} {outcomes : List Outcome} (hstop : stop s.heard = false)
    (htreated : Treated b move errorFolder path s r fault? s₁)
    (hrest : TreatedAll b move errorFolder stop ((Batch.notify r).run s₁).2 paths outcomes s') :
    TreatedAll b move errorFolder stop s (path :: paths) ((r, fault?) :: outcomes) s'

/-- The report says neither more nor less than the outcomes of the documents. -/
structure Accounts (report : BatchReport) (done : List Path) (outcomes : List Outcome) : Prop where
  length : done.length = outcomes.length
  files : report.files = outcomes.map Prod.fst
  processed : report.processed = report.files.length
  modified : report.modifiedCount = report.files.countP fun r ↦ r.modified
  unresolved : report.unresolved = (done.zip report.files).filterMap fun (p, r) ↦
    if 0 < r.invalidAfter then some ⟨p.name, r.invalidAfter⟩ else none
  errors : report.errors = outcomes.flatMap fun (r, fault?) ↦ errorEntries r fault?

theorem Accounts.addResult (h : Accounts report done outcomes) (path : Path) (r : FileRepair)
    (fault? : Option FileFault) :
    Accounts (addResult report path.name r (errorEntries r fault?)) (done ++ [path])
      (outcomes ++ [(r, fault?)]) := by
  have hlength : done.length = report.files.length := by rw [h.files, List.length_map, h.length]
  constructor
  · simp [h.length]
  · simp [BatchRules.addResult, h.files]
  · simp [BatchRules.addResult, h.processed]
  · simp [BatchRules.addResult, h.modified, List.countP_append, List.countP_singleton]
  · simp only [BatchRules.addResult]
    rw [List.zip_append hlength, List.filterMap_append, h.unresolved]
    by_cases hinvalid : 0 < r.invalidAfter <;> simp [hinvalid]
  · simp [BatchRules.addResult, h.errors]

theorem Accounts.stopped (h : Accounts report done outcomes) :
    Accounts { report with cancelled := true } done outcomes :=
  ⟨h.length, h.files, h.processed, h.modified, h.unresolved, h.errors⟩

theorem Accounts.reported (h : Accounts report done outcomes) (errorReport : Option Text) :
    Accounts { report with errorReport := errorReport } done outcomes :=
  ⟨h.length, h.files, h.processed, h.modified, h.unresolved, h.errors⟩

theorem Accounts.exists_unresolved (h : Accounts report done outcomes) {u : Unresolved}
    (hu : u ∈ report.unresolved) : ∃ p ∈ done, p.name = u.name := by
  rw [h.unresolved, List.mem_filterMap] at hu
  obtain ⟨⟨p, r⟩, hmem, hu⟩ := hu
  simp only [Option.ite_none_right_eq_some, Option.some.injEq] at hu
  obtain ⟨-, rfl⟩ := hu
  exact ⟨p, (List.of_mem_zip hmem).1, rfl⟩

theorem exists_reportPath (h : folder.Regular) : ∃ name, name ≠ ['.', '.'] ∧
    reportPath folder = ⟨folder.root, folder.parts ++ [name]⟩ := by
  have hslash : '/' ∉ if folder.name.isEmpty then Text.of "Root" else folder.name := by
    split
    · decide
    · exact h.slash_not_mem_name
  have hpart : ∀ t : Text, '/' ∉ t →
      Path.IsPart (Text.of "mermaid_error_" ++ t ++ Text.of ".md") := by
    intro t ht
    refine ⟨by simp [Text.of], ?_, by simp [Text.of]⟩
    simp [Text.of, ht]
  exact ⟨_, by simp [Text.of], Path.child_part (hpart _ hslash)⟩

theorem regular_errorFolder (h : folder.Regular) (b : BatchRules) (o : BatchOptions) :
    (b.errorFolder folder o).Regular := by
  rw [BatchRules.errorFolder]
  split <;> exact h.join (Path.regular_ofText _)

/-- Nothing is done about the report if there is nothing to report, and otherwise it is written, with
whatever comes of that. -/
def Reports (folder : Path) (report : BatchReport) (t t' : FileTree) : Prop :=
  t' = t ∨ report.unresolved ≠ [] ∧ ∃ text, t' = (t.writeText (reportPath folder) text).2

theorem exists_writeReport (folder : Path) (report : BatchReport) (s : BatchState) :
    ∃ files, Reports folder report s.files files ∧
      ((∃ errorReport, (writeReport folder report).run s =
        (.ok { report with errorReport := errorReport }, { s with files := files })) ∨
      ∃ u ∈ report.unresolved, u.name ∈ s.files.mount.garbled ∧
        (writeReport folder report).run s =
          (.error (.garbled u.name), { s with files := files })) := by
  rw [writeReport]
  split
  · exact ⟨s.files, .inl rfl, .inl ⟨report.errorReport, rfl⟩⟩
  · rename_i hsome
    have hne : report.unresolved ≠ [] := by simpa using hsome
    rw [Batch.run_bind, Batch.run_get]
    simp only
    split
    · rename_i u hfind
      have hgarbled : u.name ∈ s.files.mount.garbled := by simpa using List.find?_some hfind
      refine ⟨_, .inr ⟨hne, [], rfl⟩, ?_⟩
      rw [Batch.run_bind, Batch.run_onFiles]
      simp only
      cases (s.files.writeText (reportPath folder) []).1 with
      | ok => exact .inr ⟨u, List.mem_of_find?_eq_some hfind, hgarbled, rfl⟩
      | error => exact .inl ⟨report.errorReport, rfl⟩
    · refine ⟨_, .inr ⟨hne, reportText report.unresolved, rfl⟩, .inl ?_⟩
      rw [Batch.run_bind, Batch.run_onFiles]
      simp only
      cases (s.files.writeText (reportPath folder) (reportText report.unresolved)).1 with
      | ok => exact ⟨some (reportPath folder).toText, rfl⟩
      | error => exact ⟨report.errorReport, rfl⟩

/-- Writing the report touches no other path below the folder. -/
theorem at?_writeText_reportPath (text : Text) (hregular : folder.Regular)
    (hhome : t.locate folder = .ok home)
    (hloc : t.locate ⟨folder.root, folder.parts ++ names⟩ = .ok (home ++ names))
    (hne : ⟨folder.root, folder.parts ++ names⟩ ≠ reportPath folder) :
    (t.writeText (reportPath folder) text).2.at? ⟨folder.root, folder.parts ++ names⟩ =
      t.at? ⟨folder.root, folder.parts ++ names⟩ := by
  obtain ⟨name, hup, hpath⟩ := exists_reportPath hregular
  have hother : ∀ loc, t.locate (reportPath folder) = .ok loc → home ++ names ≠ loc := by
    intro loc hreport heq
    rw [hpath] at hreport hne
    obtain rfl := eq_append_of_locate hhome (by simpa using hup.symm) hreport
    rw [List.append_cancel_left heq] at hne
    exact hne rfl
  have hwritten := FileTree.written_writeText t (reportPath folder) text
  generalize t.writeText (reportPath folder) text = result at hwritten
  cases hwritten with
  | failed => rfl
  | refused => exact FileTree.at?_of_entry? (FileTree.AddsFolders.next t).foldersStay hloc rfl
  | made hreport hfree | torn hreport hfree =>
    exact FileTree.at?_of_entry? (FileTree.foldersStay_put hfree) hloc
      (FileTree.entry?_put_of_ne (hother _ hreport))

section

variable [Nonces]

theorem TreatedAll.told (h : TreatedAll b move errorFolder stop s done outcomes s') :
    s'.heard = s.heard ++ outcomes.map Prod.fst ∧
    s'.listeners = s.listeners.map fun l ↦ { l with told := l.told ++ outcomes.map Prod.fst } := by
  induction h with
  | nil s => simp
  | cons hstop htreated hrest ih =>
    obtain ⟨hheard, hlisteners⟩ := htreated.told
    rw [Batch.run_notify, Listener.callAll_eq] at ih
    simp [ih.1, ih.2, hheard, hlisteners]

/-- The run breaks off at one of the documents, when those before it are treated. -/
def BreaksOff (b : BatchRules) (move : Bool) (errorFolder : Path) (stop : List FileRepair → Bool)
    (s : BatchState) (paths : List Path) : Prop :=
  ∃ done path rest outcomes s₁, paths = done ++ path :: rest ∧
    TreatedAll b move errorFolder stop s done outcomes s₁ ∧ Unmovable b move errorFolder path s₁

theorem BreaksOff.move_hasNull (h : BreaksOff b move errorFolder stop s paths) :
    move = true ∧ errorFolder.hasNull := by
  obtain ⟨_, _, _, _, _, -, -, hunmovable⟩ := h
  exact ⟨hunmovable.move, hunmovable.hasNull⟩

theorem exists_fixAll (b : BatchRules) (move : Bool) (stop : List FileRepair → Bool)
    (hfolder : errorFolder.Regular) (hpaths : ∀ p ∈ paths, p.hasNull = false)
    (hreport : Accounts report done outcomes) (hcancelled : report.cancelled = false)
    (ht : s.files.WellFormed) :
    (∃ report' s' done' rest outcomes',
      (b.fixAll move errorFolder stop paths report).run s = (.ok report', s') ∧
      paths = done' ++ rest ∧ TreatedAll b move errorFolder stop s done' outcomes' s' ∧
      Accounts report' (done ++ done') (outcomes ++ outcomes') ∧
      (report'.cancelled ↔ rest ≠ []) ∧ (rest ≠ [] → stop s'.heard)) ∨
    (∃ s', (b.fixAll move errorFolder stop paths report).run s = (.error .nullByte, s')) ∧
      BreaksOff b move errorFolder stop s paths := by
  induction paths generalizing report done outcomes s with
  | nil =>
    refine .inl ⟨report, s, [], [], [], rfl, rfl, .nil s, by simpa using hreport, ?_, by simp⟩
    simp [hcancelled]
  | cons path paths ih =>
    obtain ⟨hpath, hpaths⟩ := List.forall_mem_cons.mp hpaths
    rw [fixAll, Batch.run_bind, Batch.run_get]
    simp only
    split
    · rename_i hstop
      refine .inl ⟨{ report with cancelled := true }, s, [], path :: paths, [], rfl, rfl, .nil s,
        ?_, ?_, fun _ ↦ hstop⟩
      · simpa using hreport.stopped
      · simp
    · rename_i hstop
      rw [Bool.not_eq_true] at hstop
      rw [Batch.run_bind]
      rcases exists_fixListed b move ht hfolder hpath with
        ⟨r, fault?, s₁, hrun, htreated⟩ | ⟨⟨s₁, hrun⟩, hunmovable⟩
      · have ht₁ : s₁.files.WellFormed := (htreated.leaves ht hfolder).wellFormed ht hfolder
        rw [hrun]
        simp only
        rw [Batch.run_bind]
        rcases ih (s := ((Batch.notify r).run s₁).2) hpaths (hreport.addResult path r fault?)
            hcancelled ht₁ with
          ⟨report', s', done', rest, outcomes', hrest, rfl, hall, haccounts, hfinal⟩ |
          ⟨⟨s', hrest⟩, done', path', rest, outcomes', s₂, rfl, hall, hunmovable⟩
        · exact .inl ⟨report', s', path :: done', rest, (r, fault?) :: outcomes', hrest, rfl,
            .cons hstop htreated hall, by simpa using haccounts, hfinal⟩
        · exact .inr ⟨⟨s', hrest⟩, path :: done', path', rest, (r, fault?) :: outcomes', s₂, rfl,
            .cons hstop htreated hall, hunmovable⟩
      · rw [hrun]
        exact .inr ⟨⟨s₁, rfl⟩, [], path, paths, [], s, rfl, .nil s, hunmovable⟩

section

variable (h : TreatedAll b move errorFolder stop s done outcomes s') (ht : s.files.WellFormed)
  (hfolder : errorFolder.Regular)

include h ht hfolder

theorem TreatedAll.wellFormed : s'.files.WellFormed := by
  induction h with
  | nil => exact ht
  | cons _ htreated _ ih => exact ih ((htreated.leaves ht hfolder).wellFormed ht hfolder)

theorem TreatedAll.foldersStay : s.files.FoldersStay s'.files := by
  induction h with
  | nil s => exact .refl s.files
  | cons _ htreated _ ih =>
    have hleaves := htreated.leaves ht hfolder
    exact hleaves.foldersStay.trans (ih (hleaves.wellFormed ht hfolder))

/-- What stands where none of the documents is still stands there. -/
theorem TreatedAll.entry?_eq_some (hdone : ∀ p ∈ done, ∃ loc, s.files.locate p = .ok loc ∧ loc ≠ l)
    (hl : s.files.entry? l = some e) : s'.files.entry? l = some e := by
  induction h with
  | nil => exact hl
  | cons _ htreated _ ih =>
    have hleaves := htreated.leaves ht hfolder
    obtain ⟨⟨loc, hloc, hne⟩, hrest⟩ := List.forall_mem_cons.mp hdone
    refine ih (hleaves.wellFormed ht hfolder) (fun p hp ↦ ?_) (hleaves.entry?_eq_some ?_ hl)
    · obtain ⟨loc, hloc, hne⟩ := hrest p hp
      exact ⟨loc, hleaves.foldersStay.locate hloc, hne⟩
    · rw [hloc]
      exact fun heq ↦ hne (Except.ok.inj heq)

end

/-- The documents that were not reached are left alone. -/
theorem TreatedAll.at?_eq (h : TreatedAll b move errorFolder stop s done outcomes s')
    (ht : s.files.WellFormed) (hfolder : errorFolder.Regular)
    (hlists : Lists s.files folder errorFolder (done ++ rest))
    (hhome : s.files.locate folder = .ok home) (hp : p ∈ rest) :
    s'.files.at? p = s.files.at? p := by
  have hp' : p ∈ done ++ rest := List.mem_append_right done hp
  obtain ⟨names, -, hloc, hsome⟩ := hlists.locate hhome hp'
  obtain ⟨e, he⟩ := Option.isSome_iff_exists.mp hsome
  have hkept : s'.files.entry? (home ++ names) = some e := by
    refine h.entry?_eq_some ht hfolder (fun q hq ↦ ?_) he
    have hq' : q ∈ done ++ rest := List.mem_append_left rest hq
    obtain ⟨names', -, hlocq, -⟩ := hlists.locate hhome hq'
    refine ⟨_, hlocq, fun heq ↦ ?_⟩
    obtain rfl := hlists.inj hhome hq' hp' (by rw [hlocq, hloc, heq])
    exact (List.disjoint_of_nodup_append hlists.nodup) hq hp
  exact FileTree.at?_of_entry? (h.foldersStay ht hfolder) hloc (hkept.trans he.symm)

/-- A run over a folder: the loop, and the report file if it is asked for. -/
theorem exists_fixFolder (b : BatchRules) (o : BatchOptions) (stop : List FileRepair → Bool)
    (ht : s.files.WellFormed) (hfolder : s.files.isFolder folder) :
    (∃ report s₁ done rest outcomes files,
      Lists s.files folder (b.errorFolder folder o) (done ++ rest) ∧
      TreatedAll b (o.moveErrorFiles.getD b.settings.moveErrorFiles) (b.errorFolder folder o) stop s
        done outcomes s₁ ∧
      Accounts report done outcomes ∧ (report.cancelled ↔ rest ≠ []) ∧
      (rest ≠ [] → stop s₁.heard) ∧
      (files = s₁.files ∨ o.writeErrorReport.getD b.settings.writeErrorReport = true ∧
        Reports folder report s₁.files files) ∧
      ((b.fixFolder folder o stop).run s = (.ok report, { s₁ with files := files }) ∨
        o.writeErrorReport.getD b.settings.writeErrorReport = true ∧
        ∃ p ∈ done, p.name ∈ s.files.mount.garbled ∧
          (b.fixFolder folder o stop).run s =
            (.error (.garbled p.name), { s₁ with files := files }))) ∨
    (∃ s', (b.fixFolder folder o stop).run s = (.error .nullByte, s')) ∧
      ∃ paths, Lists s.files folder (b.errorFolder folder o) paths ∧
        BreaksOff b (o.moveErrorFiles.getD b.settings.moveErrorFiles) (b.errorFolder folder o) stop
          s paths := by
  obtain ⟨home, hhome, hentry⟩ := FileTree.isFolder_iff.mp hfolder
  have herror := regular_errorFolder (ht.regular_of_isFolder hfolder) b o
  have hlists := lists_documents ht hhome (b.errorFolder folder o)
  have hstart : Accounts { folder := folder.toText } [] [] := ⟨rfl, rfl, rfl, rfl, rfl, rfl⟩
  rw [fixFolder, Batch.run_bind, Batch.run_get]
  simp only [hfolder, Bool.not_true, Bool.false_eq_true, if_false]
  rw [Batch.run_bind]
  rcases exists_fixAll b (o.moveErrorFiles.getD b.settings.moveErrorFiles) stop herror
      (fun p hp ↦ hlists.hasNull hhome hp) hstart rfl ht with
    ⟨report, s₁, done, rest, outcomes, hrun, hpaths, hall, haccounts, hcancelled, hstop⟩ |
    ⟨⟨s', hrun⟩, hbreaks⟩
  · rw [hpaths] at hlists
    rw [hrun]
    simp only
    split
    · rename_i hon
      have hmount := (hall.foldersStay ht herror).mount
      obtain ⟨files, hfiles, ⟨errorReport, hwrite⟩ | ⟨u, hu, hgarbled, hwrite⟩⟩ :=
        exists_writeReport folder report s₁
      · exact .inl ⟨{ report with errorReport := errorReport }, s₁, done, rest, outcomes, files,
          hlists, hall, haccounts.reported errorReport, hcancelled, hstop, .inr ⟨hon, hfiles⟩,
          .inl hwrite⟩
      · obtain ⟨p, hp, hname⟩ := haccounts.exists_unresolved hu
        refine .inl ⟨report, s₁, done, rest, outcomes, files, hlists, hall, haccounts, hcancelled,
          hstop, .inr ⟨hon, hfiles⟩, .inr ⟨hon, p, hp, ?_, ?_⟩⟩
        · rwa [hname, ← hmount]
        · rw [hname]
          exact hwrite
    · exact .inl ⟨report, s₁, done, rest, outcomes, s₁.files, hlists, hall, haccounts, hcancelled,
        hstop, .inl rfl, .inl rfl⟩
  · rw [hrun]
    exact .inr ⟨⟨s', rfl⟩, _, hlists, hbreaks⟩

/-- Every document treated is in the report and told to every listener, whether it fails or not. The
treated ones are the first of the sorted list, all of them unless there was a stop, and the others
are left alone. There is no report if a document cannot be moved because of a null character, or if
its name is no Unicode and is to be written into the report file. -/
theorem fixFolder_report (b : BatchRules) (folder : Path) (o : BatchOptions)
    (stop : List FileRepair → Bool) (s : BatchState) (ht : s.files.WellFormed)
    (hfolder : s.files.isFolder folder) :
    (∃ report s₁ s' done rest outcomes,
      (b.fixFolder folder o stop).run s = (.ok report, s') ∧
      Lists s.files folder (b.errorFolder folder o) (done ++ rest) ∧
      TreatedAll b (o.moveErrorFiles.getD b.settings.moveErrorFiles) (b.errorFolder folder o) stop s
        done outcomes s₁ ∧
      Accounts report done outcomes ∧
      s'.listeners = s.listeners.map (fun l ↦ { l with told := l.told ++ report.files }) ∧
      (report.cancelled ↔ rest ≠ []) ∧ (rest ≠ [] → stop (s.heard ++ report.files)) ∧
      ∀ p ∈ rest, (p = reportPath folder →
          o.writeErrorReport.getD b.settings.writeErrorReport = false ∨ report.unresolved = []) →
        s'.files.at? p = s.files.at? p) ∨
    (∃ s' paths, (b.fixFolder folder o stop).run s = (.error .nullByte, s') ∧
      Lists s.files folder (b.errorFolder folder o) paths ∧
      BreaksOff b (o.moveErrorFiles.getD b.settings.moveErrorFiles) (b.errorFolder folder o) stop s
        paths) ∨
    ∃ s' paths, Lists s.files folder (b.errorFolder folder o) paths ∧
      o.writeErrorReport.getD b.settings.writeErrorReport = true ∧
      ∃ p ∈ paths, p.name ∈ s.files.mount.garbled ∧
        (b.fixFolder folder o stop).run s = (.error (.garbled p.name), s') := by
  obtain ⟨home, hhome, hentry⟩ := FileTree.isFolder_iff.mp hfolder
  have hregular := ht.regular_of_isFolder hfolder
  have herror := regular_errorFolder hregular b o
  rcases exists_fixFolder b o stop ht hfolder with
    ⟨report, s₁, done, rest, outcomes, files, hlists, hall, haccounts, hcancelled, hstop, hfiles,
      hrun | ⟨hon, p, hp, hgarbled, hrun⟩⟩ | ⟨⟨s', hrun⟩, paths, hlists, hbreaks⟩
  · obtain ⟨hheard, hlisteners⟩ := hall.told
    rw [← haccounts.files] at hheard hlisteners
    refine .inl ⟨report, s₁, { s₁ with files := files }, done, rest, outcomes, hrun, hlists, hall,
      haccounts, hlisteners, hcancelled, fun hne ↦ hheard ▸ hstop hne, fun p hp hno ↦ ?_⟩
    have hat := hall.at?_eq ht herror hlists hhome hp
    rcases hfiles with rfl | ⟨hon, rfl | ⟨hunresolved, text, rfl⟩⟩
    · exact hat
    · exact hat
    · have hfolders := hall.foldersStay ht herror
      obtain ⟨names, rfl, hloc, -⟩ := hlists.locate hhome (List.mem_append_right done hp)
      refine (at?_writeText_reportPath text hregular (hfolders.locate hhome)
        (hfolders.locate hloc) fun heq ↦ ?_).trans hat
      rcases hno heq with hoff | hnone
      · rw [hon] at hoff
        cases hoff
      · exact hunresolved hnone
  · exact .inr (.inr ⟨_, _, hlists, hon, p, List.mem_append_left rest hp, hgarbled, hrun⟩)
  · exact .inr (.inl ⟨s', paths, hrun, hlists, hbreaks⟩)

end

section

attribute [local instance] Nonces.zeros

theorem fixFolder_report_stopped :
    let folder : Path := ⟨[], [Text.of "docs"]⟩
    let files : FileTree :=
      { entries := [([Text.of "docs"], .folder),
          ([Text.of "docs", Text.of "b.md"],
            .file (Text.Utf8.encode (Text.of "```mermaid\nA <-- B\n```"))),
          ([Text.of "docs", Text.of "a.md"], .folder),
          ([Text.of "docs", Text.of "errors"], .file [])]
        fates := [.torn (Text.of "[Errno 28] No space left on device") 3] }
    let b : BatchRules := ⟨.ofFunction fun _ ↦ .ok false, { moveErrorFiles := true }⟩
    let stop : List FileRepair → Bool := fun heard ↦ heard.length = 1
    let s : BatchState := { files := files, listeners := [{ fails := fun _ _ ↦ true }, {}] }
    files.WellFormed ∧ files.isFolder folder ∧
    ∃ report s' done rest outcomes, (b.fixFolder folder {} stop).run s = (.ok report, s') ∧
      Lists files folder (b.errorFolder folder {}) (done ++ rest) ∧
      Accounts report done outcomes ∧
      s'.listeners.map (·.told) = [report.files, report.files] ∧
      (report.cancelled ↔ rest ≠ []) := by
  intro folder files b stop s
  have ht : files.WellFormed := by decide
  have hfolder : files.isFolder folder := by decide
  have hnull : (b.errorFolder folder {}).hasNull = false := by decide
  rcases fixFolder_report b folder {} stop s ht hfolder with
    ⟨report, s₁, s', done, rest, outcomes, hrun, hlists, -, haccounts, htold, hcancelled, -⟩ |
    ⟨_, _, -, -, hbreaks⟩ | ⟨_, _, -, hwrite, -⟩
  · refine ⟨ht, hfolder, report, s', done, rest, outcomes, hrun, hlists, haccounts, ?_, hcancelled⟩
    rw [htold]
    rfl
  · cases hbreaks.move_hasNull.2.symm.trans hnull
  · cases hwrite

/-- The move to such a folder fails, which is not recorded as an error. -/
theorem fixFolder_eq_error_of_null :
    let folder : Path := ⟨[], [Text.of "d"]⟩
    let files : FileTree :=
      { entries := [([Text.of "d"], .folder), ([Text.of "d", Text.of "a.md"],
          .file (Text.Utf8.encode (Text.of "```mermaid\nA <-- B\n```")))] }
    let b : BatchRules := ⟨.ofFunction fun _ ↦ .ok false, {}⟩
    let o : BatchOptions := { moveErrorFiles := some true, errorFolder := some (Text.of "q\x00") }
    files.WellFormed ∧ files.isFolder folder ∧
    ((b.fixFolder folder o).run { files := files }).1.isOk = false := by
  decide +kernel

end

end BatchRules

end DiagramRepair
