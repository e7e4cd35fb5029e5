import DiagramRepair.Proofs.Batch.Folder
import DiagramRepair.Proofs.Refine.Steady
import Mathlib.Data.Set.Function

namespace DiagramRepair

theorem bijOn_diff {α : Type} {f : α → α} {s t u : Set α} (h : Set.BijOn f s t) (hu : u ⊆ s)
    (hfix : ∀ a ∈ u, f a = a) : Set.BijOn f (s \ u) (t \ u) := by
  refine ⟨fun a ⟨ha, hau⟩ ↦ ⟨h.mapsTo ha, fun hfa ↦ hau ?_⟩, h.injOn.mono Set.sdiff_subset,
    fun b ⟨hb, hbu⟩ ↦ ?_⟩
  · rwa [← h.injOn (hu hfa) ha (hfix _ hfa)]
  · obtain ⟨a, ha, rfl⟩ := h.surjOn hb
    exact ⟨a, ⟨ha, fun hau ↦ hbu ((hfix a hau).symm ▸ hau)⟩, rfl⟩

namespace FileTree

variable {t t' : FileTree} {loc goal : Location} {bytes old : Bytes} {extra : Set Location}

def fileLocations (t : FileTree) : Set Location := {l | ∃ bytes, t.entry? l = some (.file bytes)}

theorem Relocated.bijOn (h : t.Relocated t' loc goal bytes extra)
    (hfile : t.entry? loc = some (.file old)) :
    Set.BijOn (Function.update id loc goal) t.fileLocations (t'.fileLocations \ extra) := by
  -- A file other than the one on its way does not stand at the goal.
  have hgoal : ∀ l ∈ t.fileLocations, l ≠ loc → l ≠ goal := by
    rintro l ⟨bytes, hl⟩ hne rfl
    rcases h.free with heq | ⟨hfree, -⟩
    · exact hne heq
    · rw [hl] at hfree
      cases hfree
  refine ⟨fun l hl ↦ ?_, fun l hl l' hl' heq ↦ ?_, fun l ⟨hl, hextra⟩ ↦ ?_⟩
  · by_cases hne : l = loc
    · rw [hne, Function.update_self]
      exact ⟨⟨bytes, h.file⟩, fun hextra ↦ (h.left goal hextra).2.1 rfl⟩
    · obtain ⟨bytes', hbytes⟩ := hl
      rw [Function.update_of_ne hne]
      refine ⟨⟨bytes', h.entry?_eq_some hne hbytes⟩, fun hextra ↦ ?_⟩
      cases (h.left l hextra).1.symm.trans hbytes
  · by_cases hne : l = loc <;> by_cases hne' : l' = loc
    · rw [hne, hne']
    · rw [hne, Function.update_self, Function.update_of_ne hne'] at heq
      exact absurd heq.symm (hgoal l' hl' hne')
    · rw [hne', Function.update_self, Function.update_of_ne hne] at heq
      exact absurd heq (hgoal l hl hne)
    · rwa [Function.update_of_ne hne, Function.update_of_ne hne'] at heq
  · by_cases heq : l = goal
    · exact ⟨loc, ⟨old, hfile⟩, by rw [Function.update_self, heq]⟩
    · obtain ⟨bytes', hbytes⟩ := hl
      have hne : l ≠ loc := by
        rintro rfl
        rcases h.free with heq' | ⟨-, hgone⟩
        · exact heq heq'.symm
        · rw [hbytes] at hgone
          cases hgone
      refine ⟨l, ⟨bytes', ((h.others l hne heq hextra).entry?_eq_file).mp hbytes⟩, ?_⟩
      rw [Function.update_of_ne hne]
      rfl

end FileTree

namespace BatchRules

section

variable [Nonces] {b : BatchRules} {path errorFolder folder p q : Path} {t t' t₁ : FileTree}
  {s s' s₁ : BatchState} {r : FileRepair} {move : Bool} {stop : List FileRepair → Bool}
  {home loc l : Location} {e : FileEntry} {done rest : List Path} {names : List Text}
  {bytes old : Bytes} {outcomes : List Outcome} {place : Location → Location}
  {extra extra' : Set Location} {results : List FileRepair}

/-- The files of one tree are those of the other in their places: what stands where no document is
stays as it is, and the documents are placed and rewritten by their results. Beside them there are
the copies that moves have left. -/
structure KeepsFiles (b : BatchRules) (move : Bool) (errorFolder : Path) (t t' : FileTree)
    (done : List Path) (results : List FileRepair) (place : Location → Location)
    (extra : Set Location) : Prop where
  bijOn : Set.BijOn place t.fileLocations (t'.fileLocations \ extra)
  others : ∀ l bytes, t.entry? l = some (.file bytes) → (∀ p ∈ done, t.locate p ≠ .ok l) →
    place l = l ∧ t'.entry? l = some (.file bytes)
  documents : ∀ p r, (p, r) ∈ done.zip results → ∀ l old, t.locate p = .ok l →
    t.entry? l = some (.file old) → Placed move (errorFolder.child p.name) r t' l (place l) ∧
      ∃ bytes, t'.entry? (place l) = some (.file bytes) ∧ Rewritten b p t r old bytes
  copies : ∀ l ∈ extra, ∃ p r, (p, r) ∈ done.zip results ∧
    LeftCopy move p (errorFolder.child p.name) r t t' l

theorem KeepsFiles.refl (t : FileTree) : KeepsFiles b move errorFolder t t [] [] id ∅ :=
  ⟨by simpa using Set.bijOn_id t.fileLocations, fun _ _ hl _ ↦ ⟨rfl, hl⟩, by simp, nofun⟩

/-- The rewritten text is that of the tree before, as the document was still the same. -/
theorem Rewritten.of_later (h : Rewritten b p t' r old bytes) (hlater : t.Later t')
    (hread : t'.readText p = t.readText p) : Rewritten b p t r old bytes := by
  rw [Rewritten, hread] at h
  rw [Rewritten]
  split at h
  · rename_i hmodified
    rwa [if_pos hmodified]
  · rename_i hmodified
    rw [if_neg hmodified]
    refine h.imp_right ?_
    rintro ⟨document, asked, reason, count, hdocument, hfate, hbytes⟩
    exact ⟨document, asked, reason, count, hdocument, hlater.fates.subset hfate, hbytes⟩

theorem KeepsFiles.of_ne (h : KeepsFiles b move errorFolder t t' [path] [r] place extra)
    (hloc : t.locate path = .ok loc) (hl : t.entry? l = some (.file bytes)) (hne : l ≠ loc) :
    place l = l ∧ t'.entry? l = some (.file bytes) := by
  refine h.others l bytes hl fun p hp hlocp ↦ ?_
  obtain rfl := List.mem_singleton.mp hp
  exact hne (Except.ok.inj (hlocp.symm.trans hloc))

/-- The rest of the documents leaves alone the file of the first one and what stands where nothing
was, as none of them stands there. -/
theorem KeepsFiles.of_free (h : KeepsFiles b move errorFolder t₁ t' done results place extra)
    (hl : l = loc ∨ t.entry? l = none) (hstay : t.FoldersStay t₁)
    (hdone : ∀ p ∈ done, ∃ l, t.locate p = .ok l ∧ l ≠ loc ∧ (t.entry? l).isSome)
    (hbytes : t₁.entry? l = some (.file bytes)) :
    place l = l ∧ t'.entry? l = some (.file bytes) := by
  refine h.others l bytes hbytes fun q hq hlocq ↦ ?_
  obtain ⟨l', hl', hne, hsome⟩ := hdone q hq
  obtain rfl := Except.ok.inj ((hstay.locate hl').symm.trans hlocq)
  rcases hl with heq | hfree
  · exact hne heq
  · rw [hfree] at hsome
    cases hsome

theorem KeepsFiles.mem_fileLocations {copies : Set Location}
    (h : KeepsFiles b move errorFolder t t' done results place copies) (hl : l ∈ copies) :
    ∃ part, t'.entry? l = some (.file part) := by
  obtain ⟨p, r, -, hcopy⟩ := h.copies l hl
  obtain ⟨-, bytes, -, count, -, -, -, hpart⟩ := hcopy.copy
  exact ⟨bytes.take count, hpart⟩

section

variable {goal : Location}
  (h : KeepsFiles b move errorFolder t t₁ [path] [r] (Function.update id loc goal) extra)
  (h' : KeepsFiles b move errorFolder t₁ t' done results place extra')
  (hloc : t.locate path = .ok loc) (hgoal : goal = loc ∨ t.entry? goal = none)
  (hextra : ∀ l ∈ extra, t.entry? l = none) (hstay : t.FoldersStay t₁)
  (hstay' : t₁.FoldersStay t')
  (hdone : ∀ p ∈ done, ∃ l, t.locate p = .ok l ∧ l ≠ loc ∧ (t.entry? l).isSome)

include h h' hstay hdone

include hextra in
theorem KeepsFiles.bijOn_cons : Set.BijOn (place ∘ Function.update id loc goal) t.fileLocations
    (t'.fileLocations \ (extra' ∪ extra)) := by
  rw [← Set.sdiff_sdiff]
  refine (bijOn_diff h'.bijOn (fun l hl ↦ h.mem_fileLocations hl) fun l hl ↦ ?_).comp h.bijOn
  obtain ⟨part, hpart⟩ := h.mem_fileLocations hl
  exact (h'.of_free (.inr (hextra l hl)) hstay hdone hpart).1

include hloc in
theorem KeepsFiles.others_cons (hl : t.entry? l = some (.file bytes))
    (hno : ∀ p ∈ path :: done, t.locate p ≠ .ok l) :
    place (Function.update id loc goal l) = l ∧ t'.entry? l = some (.file bytes) := by
  obtain ⟨hpath, hno⟩ := List.forall_mem_cons.mp hno
  obtain ⟨hplace, hkept⟩ := h.of_ne hloc hl fun heq ↦ hpath (heq ▸ hloc)
  rw [hplace]
  refine h'.others l bytes hkept fun p hp hlocp ↦ ?_
  obtain ⟨l', hl', -⟩ := hdone p hp
  have heq := Except.ok.inj ((hstay.locate hl').symm.trans hlocp)
  exact hno p hp (heq ▸ hl')

include hloc hgoal hstay' in
theorem KeepsFiles.documents_cons {r' : FileRepair}
    (hmem : (p, r') ∈ (path :: done).zip (r :: results)) (hl : t.locate p = .ok l)
    (hold : t.entry? l = some (.file old)) :
    Placed move (errorFolder.child p.name) r' t' l (place (Function.update id loc goal l)) ∧
      ∃ bytes, t'.entry? (place (Function.update id loc goal l)) = some (.file bytes) ∧
        Rewritten b p t r' old bytes := by
  rw [List.zip_cons_cons, List.mem_cons] at hmem
  rcases hmem with heq | hmem
  · obtain ⟨rfl, rfl⟩ := Prod.mk.inj heq
    obtain rfl := Except.ok.inj (hloc.symm.trans hl)
    obtain ⟨hplaced, bytes, hbytes, hrewritten⟩ := h.documents p r' (by simp) loc old hl hold
    rw [Function.update_self] at hplaced hbytes ⊢
    obtain ⟨hstill, hkept⟩ := h'.of_free hgoal hstay hdone hbytes
    rw [hstill]
    exact ⟨hplaced.imp_right fun hmoved ↦ ⟨hmoved.1, hmoved.2.1, hstay'.locate hmoved.2.2⟩,
      bytes, hkept, hrewritten⟩
  · obtain ⟨l', hl', hne, -⟩ := hdone p (List.of_mem_zip hmem).1
    obtain rfl := Except.ok.inj (hl'.symm.trans hl)
    obtain ⟨hplace, hkept⟩ := h.of_ne hloc hold hne
    obtain ⟨hplaced, bytes, hbytes, hrewritten⟩ :=
      h'.documents p r' hmem l' old (hstay.locate hl') hkept
    rw [hplace]
    refine ⟨hplaced, bytes, hbytes, hrewritten.of_later hstay.toLater ?_⟩
    exact FileTree.readText_congr (FileTree.readBytes_congr hstay hl' (hkept.trans hold.symm))

include hloc hextra hstay' in
theorem KeepsFiles.copies_cons (hl : l ∈ extra' ∪ extra) :
    ∃ p r', (p, r') ∈ (path :: done).zip (r :: results) ∧
      LeftCopy move p (errorFolder.child p.name) r' t t' l := by
  rcases hl with hl | hl
  · obtain ⟨p, r', hmem, hmove, hinvalid, hmoved, hlocate, loc', bytes, reason, count, hlocp,
      hrest, hfate, hpart⟩ := h'.copies l hl
    obtain ⟨l', hl', -⟩ := hdone p (List.of_mem_zip hmem).1
    obtain rfl := Except.ok.inj ((hstay.locate hl').symm.trans hlocp)
    exact ⟨p, r', List.mem_cons_of_mem _ hmem, hmove, hinvalid, hmoved, hlocate, l', bytes, reason,
      count, hl', hrest, hstay.fates.subset hfate, hpart⟩
  · obtain ⟨p, r', hmem, hmove, hinvalid, hmoved, hlocate, loc', bytes, reason, count, hlocp,
      hrest, hfate, hpart⟩ := h.copies l hl
    obtain ⟨rfl, rfl⟩ : p = path ∧ r' = r := by simpa using hmem
    obtain rfl := Except.ok.inj (hloc.symm.trans hlocp)
    exact ⟨p, r', List.mem_cons_self, hmove, hinvalid, hmoved, hstay'.locate hlocate, loc, bytes,
      reason, count, hloc, (h'.of_free (.inl rfl) hstay hdone hrest).2, hfate,
      (h'.of_free (.inr (hextra l hl)) hstay hdone hpart).2⟩

include hloc hgoal hextra hstay' in
theorem KeepsFiles.cons : KeepsFiles b move errorFolder t t' (path :: done) (r :: results)
    (place ∘ Function.update id loc goal) (extra' ∪ extra) where
  bijOn := h.bijOn_cons h' hextra hstay hdone
  others _ _ hl hno := h.others_cons h' hloc hstay hdone hl hno
  documents _ _ hmem _ _ hl hold :=
    h.documents_cons h' hloc hgoal hstay hstay' hdone hmem hl hold
  copies _ hl := h.copies_cons h' hloc hextra hstay hstay' hdone hl

end

/-- Treating the first document leaves the others in their places. -/
theorem Distinct.after (h : Distinct t (path :: done))
    (hleaves : Leaves b move errorFolder path t r t') : Distinct t' done := by
  obtain ⟨loc, hloc, -⟩ := h.isSome path List.mem_cons_self
  have hstay := hleaves.foldersStay
  have hdone := h.of_cons hloc
  refine ⟨fun p hp ↦ ?_, (List.pairwise_cons.mp h.pairwise).2.imp_of_mem fun hp hq hne heq ↦ hne ?_⟩
  · obtain ⟨l, hl, hne, hentry⟩ := hdone p hp
    obtain ⟨e, he⟩ := Option.isSome_iff_exists.mp hentry
    have hkept := hleaves.entry?_eq_some (by rw [hloc]; simpa using hne.symm) he
    exact ⟨l, hstay.locate hl, by rw [hkept]; rfl⟩
  · obtain ⟨l, hl, -⟩ := hdone _ hp
    obtain ⟨l', hl', -⟩ := hdone _ hq
    rw [hstay.locate hl, hstay.locate hl'] at heq
    rw [hl, hl', heq]

end

section

attribute [local instance] Nonces.zeros

end

end BatchRules

end DiagramRepair
