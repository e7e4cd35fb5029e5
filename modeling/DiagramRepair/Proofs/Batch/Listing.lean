import DiagramRepair.Batch.Run
import DiagramRepair.Proofs.File.Change

namespace DiagramRepair

variable {folder errorFolder path p q : Path} {t t' : FileTree} {home loc l : Location}
  {paths done rest : List Path} {names : List Text}

theorem FileTree.at?_of_entry? (hstay : t.FoldersStay t') (hloc : t.locate p = .ok loc)
    (hentry : t'.entry? loc = t.entry? loc) : t'.at? p = t.at? p := by
  rw [at?, at?, hstay.locate hloc, hloc]
  exact hentry

namespace BatchRules

/-- The Markdown documents below a folder that do not lie below another, each once and in the order
of paths. -/
structure Lists (t : FileTree) (folder errorFolder : Path) (paths : List Path) : Prop where
  sorted : paths.Pairwise fun p q ↦ ¬ q.parts < p.parts
  nodup : paths.Nodup
  mem : ∀ p, p ∈ paths ↔ p.isMarkdown ∧ p.isBelow errorFolder = false ∧ t.exists? p ∧
    ∃ names, names ≠ [] ∧ ['.', '.'] ∉ names ∧ p = ⟨folder.root, folder.parts ++ names⟩

theorem exists?_of_locate (hloc : t.locate p = .ok loc) : t.exists? p = (t.entry? loc).isSome := by
  rw [FileTree.exists?, FileTree.at?, hloc]

theorem eq_append_of_locate (hhome : t.locate folder = .ok home) (hnames : ['.', '.'] ∉ names)
    (hloc : t.locate ⟨folder.root, folder.parts ++ names⟩ = .ok loc) : loc = home ++ names := by
  have hwalk := (FileTree.locate_eq_ok.mp hloc).2
  exact FileTree.eq_append_of_walk hnames
    ((FileTree.walk_append (FileTree.locate_eq_ok.mp hhome).2).symm.trans hwalk)

theorem locate_below (hhome : t.locate folder = .ok home) (hnames : ['.', '.'] ∉ names)
    (h : t.exists? ⟨folder.root, folder.parts ++ names⟩) :
    t.locate ⟨folder.root, folder.parts ++ names⟩ = .ok (home ++ names) ∧
      (t.entry? (home ++ names)).isSome := by
  cases hloc : t.locate ⟨folder.root, folder.parts ++ names⟩ with
  | error fault =>
    rw [FileTree.exists?, FileTree.at?, hloc] at h
    cases h
  | ok loc =>
    obtain rfl := eq_append_of_locate hhome hnames hloc
    exact ⟨rfl, exists?_of_locate hloc ▸ h⟩

theorem lists_documents (ht : t.WellFormed) (hhome : t.locate folder = .ok home)
    (errorFolder : Path) : Lists t folder errorFolder
      ((t.markdownBelow folder).filter fun p ↦ !p.isBelow errorFolder) := by
  refine ⟨(t.pairwise_markdownBelow folder).filter _,
    (t.nodup_markdownBelow folder ht).sublist List.filter_sublist, fun p ↦ ?_⟩
  rw [List.mem_filter, FileTree.mem_markdownBelow hhome, Bool.not_eq_true']
  constructor
  · rintro ⟨⟨hmarkdown, names, hne, hsome, rfl⟩, houtside⟩
    have hloc := FileTree.locate_append hhome ht hsome
    have hup : ['.', '.'] ∉ names := fun hmem ↦
      ht.up_not_mem hsome (List.mem_append_right home hmem)
    exact ⟨hmarkdown, houtside, by rw [exists?_of_locate hloc, hsome], names, hne, hup, rfl⟩
  · rintro ⟨hmarkdown, houtside, hexists, names, hne, hup, rfl⟩
    exact ⟨⟨hmarkdown, names, hne, (locate_below hhome hup hexists).2, rfl⟩, houtside⟩

/-- A listed document lies at the location of the folder with its own names added. -/
theorem Lists.locate (h : Lists t folder errorFolder paths) (hhome : t.locate folder = .ok home)
    (hp : p ∈ paths) : ∃ names, p = ⟨folder.root, folder.parts ++ names⟩ ∧
      t.locate p = .ok (home ++ names) ∧ (t.entry? (home ++ names)).isSome := by
  obtain ⟨-, -, hexists, names, -, hup, rfl⟩ := (h.mem p).mp hp
  exact ⟨names, rfl, locate_below hhome hup hexists⟩

theorem Lists.hasNull (h : Lists t folder errorFolder paths) (hhome : t.locate folder = .ok home)
    (hp : p ∈ paths) : p.hasNull = false := by
  obtain ⟨names, -, hloc, -⟩ := h.locate hhome hp
  exact (FileTree.locate_eq_ok.mp hloc).1

theorem Lists.inj (h : Lists t folder errorFolder paths) (hhome : t.locate folder = .ok home)
    (hp : p ∈ paths) (hq : q ∈ paths) (hloc : t.locate p = t.locate q) : p = q := by
  obtain ⟨names, rfl, hlocp, -⟩ := h.locate hhome hp
  obtain ⟨names', rfl, hlocq, -⟩ := h.locate hhome hq
  rw [hlocp, hlocq] at hloc
  rw [List.append_cancel_left (Except.ok.inj hloc)]

/-- The documents are there, no two of them in one place. -/
structure Distinct (t : FileTree) (paths : List Path) : Prop where
  isSome : ∀ p ∈ paths, ∃ l, t.locate p = .ok l ∧ (t.entry? l).isSome
  pairwise : paths.Pairwise fun p q ↦ t.locate p ≠ t.locate q

theorem Distinct.of_cons (h : Distinct t (path :: done)) (hloc : t.locate path = .ok loc) :
    ∀ p ∈ done, ∃ l, t.locate p = .ok l ∧ l ≠ loc ∧ (t.entry? l).isSome := by
  intro p hp
  obtain ⟨l, hl, hentry⟩ := h.isSome p (List.mem_cons_of_mem path hp)
  refine ⟨l, hl, ?_, hentry⟩
  rintro rfl
  exact (List.pairwise_cons.mp h.pairwise).1 p hp (hloc.trans hl.symm)

theorem Distinct.left (h : Distinct t (done ++ rest)) : Distinct t done :=
  ⟨fun p hp ↦ h.isSome p (List.mem_append_left rest hp), (List.pairwise_append.mp h.pairwise).1⟩

end BatchRules

end DiagramRepair
