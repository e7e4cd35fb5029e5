import DiagramRepair.Proofs.Repair.Notes

namespace DiagramRepair

open Pattern

namespace Rule

open Fate

variable {l node : Text} {ls ids : List Text} {names names₀ : NoteNames} {d : Directive}
  {fates : List Fate} {j : Nat}

def FreeEdgeWith (P : PlainEdge → Prop) (fates : List Fate) (j : Nat) : Prop :=
  j ∉ edges fates ∧ ∃ e : PlainEdge, (written fates)[j]? = some e.text ∧ P e

def Leaving (node : Text) : List Fate → Nat → Prop := FreeEdgeWith fun e ↦ node = e.source

def Entering (node : Text) : List Fate → Nat → Prop := FreeEdgeWith fun e ↦ node = e.target

theorem freeEdge_iff_leaving_or_entering :
    FreeEdge fates node j ↔ Leaving node fates j ∨ Entering node fates j := by
  constructor
  · rintro ⟨hj, e, he, hsource | htarget⟩
    · exact .inl ⟨hj, e, he, hsource⟩
    · exact .inr ⟨hj, e, he, htarget⟩
  · rintro (⟨hj, e, he, hsource⟩ | ⟨hj, e, he, htarget⟩)
    · exact ⟨hj, e, he, .inl hsource⟩
    · exact ⟨hj, e, he, .inr htarget⟩

/-- Where a note goes that prefers the edges that leave its node: onto the last of them, onto the
last that enters the node only if there are none, and into a node of its own only if there is no
edge of the node at all. -/
inductive SourceFirst (fates : List Fate) (d : Directive) : Fate → Prop
  | leaving {j : Nat} (hedge : Leaving d.node fates j)
    (hlast : ∀ j' > j, ¬ Leaving d.node fates j') : SourceFirst fates d (.attached d j)
  | entering {j : Nat} (hnone : ∀ j', ¬ Leaving d.node fates j') (hedge : Entering d.node fates j)
    (hlast : ∀ j' > j, ¬ Entering d.node fates j') : SourceFirst fates d (.attached d j)
  | alone {name : Text} (hnone : ∀ j, ¬ Leaving d.node fates j)
    (hnone' : ∀ j, ¬ Entering d.node fates j) : SourceFirst fates d (.placed d name)

def EnteredLast (node : Text) (fates : List Fate) : Prop :=
  (∃ j, Leaving node fates j) ∧ ∃ j, Entering node fates j ∧ ∀ j', Leaving node fates j' → j' < j

def PlainEdge.between (source target : Text) (hsource : IsIdent source)
    (htarget : IsIdent target) : PlainEdge :=
  ⟨[], source, [], [' '], Text.of "-->", [' '], target, [], by decide, hsource, .inl rfl, by decide,
    .inl rfl, by decide, htarget, by decide⟩

/-- The last edge of the node is the preferred one, unless it only enters the node. -/
theorem sourceFirst_attached_iff (hfree : FreeEdge fates d.node j)
    (hlast : ∀ j' > j, ¬ FreeEdge fates d.node j') :
    SourceFirst fates d (.attached d j) ↔ ¬ EnteredLast d.node fates := by
  have hleaving : ∀ j' > j, ¬ Leaving d.node fates j' := fun j' hj' h ↦
    hlast j' hj' (freeEdge_iff_leaving_or_entering.mpr (.inl h))
  have hentering : ∀ j' > j, ¬ Entering d.node fates j' := fun j' hj' h ↦
    hlast j' hj' (freeEdge_iff_leaving_or_entering.mpr (.inr h))
  constructor
  · rintro (⟨hedge, -⟩ | ⟨hnone, -, -⟩) ⟨⟨j₀, hj₀⟩, j', hj', hbehind⟩
    · exact hentering j' (hbehind j hedge) hj'
    · exact hnone j₀ hj₀
  · intro hnot
    rcases freeEdge_iff_leaving_or_entering.mp hfree with hedge | hedge
    · exact .leaving hedge hleaving
    · by_cases hj : Leaving d.node fates j
      · exact .leaving hj hleaving
      · refine .entering (fun j₀ hj₀ ↦ hnot ⟨⟨j₀, hj₀⟩, j, hedge, fun j' hj' ↦ ?_⟩) hedge hentering
        have hle : j' ≤ j := Nat.le_of_not_lt fun hlt ↦ hleaving j' hlt hj'
        exact Nat.lt_of_le_of_ne hle fun heq ↦ hj (heq ▸ hj')

theorem sourceFirst_placed_iff (hnone : ∀ j, ¬ FreeEdge fates d.node j) (name : Text) :
    SourceFirst fates d (.placed d name) ↔ ¬ EnteredLast d.node fates := by
  have hleaving : ∀ j, ¬ Leaving d.node fates j := fun j h ↦
    hnone j (freeEdge_iff_leaving_or_entering.mpr (.inl h))
  have hentering : ∀ j, ¬ Entering d.node fates j := fun j h ↦
    hnone j (freeEdge_iff_leaving_or_entering.mpr (.inr h))
  exact iff_of_true (.alone hleaving hentering) fun ⟨⟨j, hj⟩, _⟩ ↦ hleaving j hj

/-- The note in this line goes to the preferred place, just when that is the nearest one. -/
def SettledAt (fates : List Fate) (i : Nat) (d : Directive) : Prop :=
  ∃ f, fates[i]? = some f ∧ (SourceFirst (fates.take i) d f ↔ ¬ EnteredLast d.node (fates.take i))

theorem settledAt_concat {f : Fate} (h : SourceFirst fates d f ↔ ¬ EnteredLast d.node fates) :
    SettledAt (fates ++ [f]) fates.length d := by
  refine ⟨f, by simp, ?_⟩
  rwa [List.take_left]

/-- Later lines change nothing. -/
theorem SettledAt.concat {i : Nat} (h : SettledAt fates i d) (f : Fate) :
    SettledAt (fates ++ [f]) i d := by
  obtain ⟨f', hf', hiff⟩ := h
  have hi : i < fates.length := (List.getElem?_eq_some_iff.mp hf').1
  refine ⟨f', by rwa [List.getElem?_append_left hi], ?_⟩
  rwa [List.take_append_of_le_length (Nat.le_of_lt hi)]

theorem of_getElem?_concat {l' : Text} {i : Nat} (h : (ls ++ [l'])[i]? = some l) :
    ls[i]? = some l ∨ i = ls.length ∧ l' = l := by
  rcases Nat.lt_trichotomy i ls.length with hi | rfl | hi
  · exact .inl (by rwa [List.getElem?_append_left hi] at h)
  · exact .inr ⟨rfl, by simpa using h⟩
  · rw [List.getElem?_eq_none (by simpa using Nat.succ_le_of_lt hi)] at h
    cases h

namespace NoteFates

theorem length_eq (h : NoteFates ids names₀ ls fates names) : fates.length = ls.length := by
  induction h with
  | nil => rfl
  | keep | attach | place => simp_all

theorem settledAt (h : NoteFates ids names₀ ls fates names) {i : Nat} (hl : ls[i]? = some l)
    (hd : directive? l = some d) (hside : d.onSide) : SettledAt fates i d := by
  induction h with
  | nil => cases hl
  | keep h hkept ih =>
    rcases of_getElem?_concat hl with hl | ⟨-, rfl⟩
    · exact (ih hl).concat _
    · rw [hd] at hkept
      cases hkept
  | attach h hd' hside' hfree hlast ih =>
    rcases of_getElem?_concat hl with hl | ⟨rfl, rfl⟩
    · exact (ih hl).concat _
    · obtain rfl := Option.some.inj (hd.symm.trans hd')
      rw [← h.length_eq]
      exact settledAt_concat (sourceFirst_attached_iff hfree hlast)
  | place h hd' hnone ih =>
    rcases of_getElem?_concat hl with hl | ⟨rfl, rfl⟩
    · exact (ih hl).concat _
    · obtain rfl := Option.some.inj (hd.symm.trans hd')
      rw [← h.length_eq]
      exact settledAt_concat (sourceFirst_placed_iff (hnone hside) _)

end NoteFates

end Rule

namespace RepairRule

open Rule Fate

/-- The notes of a flowchart prefer the edges that leave their nodes, as long as no edge enters a
node behind all those that leave it. -/
theorem convertNoteDirectives_sourceFirst {ctx : RepairContext}
    (hkind : ctx.kind = .flowchart ∨ ctx.kind = .unknown) (names : NoteNames) (content : Text) :
    ∃ t names' fates, convertNoteDirectives.apply ctx names content = .ok (t, names') ∧
      NoteFates ctx.ids.ids names (Text.lines content) fates names' ∧
      AttachesNotes fates (Text.lines t) ∧
      ∀ i l d, (Text.lines content)[i]? = some l → directive? l = some d → d.onSide →
        ∃ f, fates[i]? = some f ∧
          (SourceFirst (fates.take i) d f ↔ ¬ EnteredLast d.node (fates.take i)) := by
  have hflow : ctx.kind.isFlowchart := by rcases hkind with hkind | hkind <;> rw [hkind] <;> rfl
  have happly : convertNoteDirectives.apply ctx names content =
      .ok (Rule.convertNoteDirectives ctx.ids.ids names content) := by
    simp [convertNoteDirectives, onFlowcharts, hflow]
  have hstart : NoteFates ctx.ids.ids names [] [] names := .nil
  have hempty : AttachesNotes [] ([] : List Text).reverse := .nil
  obtain ⟨fates, hfates, hattaches⟩ := convertNoteLines_fates hstart hempty (by simp)
    fun _ hx ↦ Text.newline_not_mem_of_mem_lines (t := content) hx
  rw [← lines_convertNoteDirectives] at hattaches
  exact ⟨_, _, fates, happly, hfates, hattaches, fun i l d hl hd hside ↦
    hfates.settledAt hl hd hside⟩

theorem convertNoteDirectives_sourceFirst_bothSides :
    let ctx : RepairContext := ⟨⟨[], []⟩, .flowchart⟩
    let content := Text.of "C --> A\nA --> B\nX --> Y\nnote right of A : why\nnote over of A : how"
    (ctx.kind = .flowchart ∨ ctx.kind = .unknown) ∧
    ∃ fates names', NoteFates ctx.ids.ids {} (Text.lines content) fates names' ∧
      AttachesNotes fates [Text.of "C -- \"how\" --> A", Text.of "A -- \"why\" --> B",
        Text.of "X --> Y"] ∧
      ∃ d f, directive? (Text.of "note over of A : how") = some d ∧ fates[4]? = some f ∧
        (SourceFirst (fates.take 4) d f ↔ ¬ EnteredLast d.node (fates.take 4)) := by
  intro ctx content
  have hkind : ctx.kind = .flowchart ∨ ctx.kind = .unknown := .inl rfl
  obtain ⟨t, names', fates, happly, hfates, hattaches, hsettled⟩ :=
    convertNoteDirectives_sourceFirst hkind {} content
  have ht : t = Text.of "C -- \"how\" --> A\nA -- \"why\" --> B\nX --> Y" := by
    have hrun := congrArg Prod.fst (Except.ok.inj happly)
    exact hrun.symm.trans (by decide)
  rw [ht] at hattaches
  have hnote : directive? (Text.of "note over of A : how") =
      some ⟨[], Text.of "A", Text.of "how", true⟩ := rfl
  obtain ⟨f, hf⟩ := hsettled 4 _ _ (by decide) hnote rfl
  exact ⟨hkind, fates, names', hfates, hattaches, _, f, hnote, hf⟩

/-- Here the nearest edge enters the node of the note, and the one in front of it leaves the node:
the note goes onto the wrong one. -/
theorem exists_not_sourceFirst :
    let ctx : RepairContext := ⟨⟨[], []⟩, .flowchart⟩
    let content := Text.of "A --> B\nC --> A\nnote right of A : why"
    convertNoteDirectives.apply ctx {} content =
        .ok (Text.of "A --> B\nC -- \"why\" --> A", {}) ∧
    ∃ fates d f, NoteFates ctx.ids.ids {} (Text.lines content) fates {} ∧
      directive? (Text.of "note right of A : why") = some d ∧ d.onSide ∧ fates[2]? = some f ∧
      Leaving d.node (fates.take 2) 0 ∧ f = .attached d 1 ∧ ¬ SourceFirst (fates.take 2) d f := by
  intro ctx content
  let out := PlainEdge.between (Text.of "A") (Text.of "B") ⟨by decide, by decide⟩
    ⟨by decide, by decide⟩
  let into := PlainEdge.between (Text.of "C") (Text.of "A") ⟨by decide, by decide⟩
    ⟨by decide, by decide⟩
  let d : Directive := ⟨[], Text.of "A", Text.of "why", true⟩
  let fates : List Fate := [.kept out.text, .kept into.text]
  have hlines : Text.lines content = [out.text, into.text, Text.of "note right of A : why"] := by
    decide
  have hleaving : Leaving d.node fates 0 := ⟨List.not_mem_nil, out, rfl, rfl⟩
  have hentering : Entering d.node fates 1 := ⟨List.not_mem_nil, into, rfl, rfl⟩
  have hlast : ∀ j > 1, ¬ FreeEdge fates d.node j := by
    rintro (_ | _ | j) hj ⟨-, e, he, -⟩
    · omega
    · omega
    · cases he
  have hfates : NoteFates ctx.ids.ids {} (Text.lines content) (fates ++ [.attached d 1]) {} := by
    rw [hlines]
    exact .attach (.keep (.keep .nil rfl) rfl) rfl rfl
      (freeEdge_iff_leaving_or_entering.mpr (.inr hentering)) hlast
  refine ⟨rfl, fates ++ [.attached d 1], d, .attached d 1, hfates, rfl, rfl, rfl, ?_, rfl, ?_⟩
  · exact hleaving
  intro h
  cases h with
  | leaving hedge =>
    obtain ⟨-, e, he, hsource⟩ := hedge
    obtain rfl : into = e := PlainEdge.text_injective (Option.some.inj he)
    exact absurd hsource (by decide)
  | entering hnone => exact hnone 0 hleaving

end RepairRule

end DiagramRepair
