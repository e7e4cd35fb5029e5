import DiagramRepair.Proofs.Rule.PlainEdge
import DiagramRepair.Proofs.Rule.Written
import DiagramRepair.Repair.Rule

namespace DiagramRepair

open Pattern

namespace Rule

variable {l : Text} {ls ls' done ids : List Text} {names names₀ : NoteNames} {d : Directive}

/-- What becomes of a line: it stays, or its note goes onto the edge at a place in the output, or
its note gets a node of its own. -/
inductive Fate
  | kept (line : Text)
  | attached (d : Directive) (edge : Nat)
  | placed (d : Directive) (name : Text)

namespace Fate

def lines : Fate → List Text
  | kept line => [line]
  | attached _ _ => []
  | placed d name => [d.indent ++ name ++ Text.of "[\"" ++ d.text ++ ['"', ']'],
      d.indent ++ d.node ++ Text.of " -.- " ++ name]

def edge? : Fate → Option Nat
  | attached _ edge => some edge
  | _ => none

def written (fates : List Fate) : List Text := fates.flatMap lines

def edges (fates : List Fate) : List Nat := fates.filterMap edge?

theorem written_concat (fates : List Fate) (f : Fate) :
    written (fates ++ [f]) = written fates ++ f.lines := by
  simp [written]

theorem mem_edges {fates : List Fate} {j : Nat} :
    j ∈ edges fates ↔ ∃ d, .attached d j ∈ fates := by
  rw [edges, List.mem_filterMap]
  constructor
  · rintro ⟨f, hf, hedge⟩
    cases f with
    | attached d j' =>
      obtain rfl := Option.some.inj hedge
      exact ⟨d, hf⟩
    | kept | placed => cases hedge
  · rintro ⟨d, hd⟩
    exact ⟨_, hd, rfl⟩

end Fate

open Fate

def FreeEdge (fates : List Fate) (node : Text) (j : Nat) : Prop :=
  j ∉ edges fates ∧ ∃ e : PlainEdge, (written fates)[j]? = some e.text ∧ e.touches node

/-- What becomes of the lines of a block, one after the other. A note on a side of its node goes
onto the last free edge of the node, if there is one. -/
inductive NoteFates (ids : List Text) (names₀ : NoteNames) :
    List Text → List Fate → NoteNames → Prop
  | nil : NoteFates ids names₀ [] [] names₀
  | keep {l : Text} {ls : List Text} {fates : List Fate} {names : NoteNames}
    (h : NoteFates ids names₀ ls fates names) (hl : directive? l = none) :
    NoteFates ids names₀ (ls ++ [l]) (fates ++ [.kept l]) names
  | attach {l : Text} {ls : List Text} {d : Directive} {j : Nat} {fates : List Fate}
    {names : NoteNames} (h : NoteFates ids names₀ ls fates names) (hl : directive? l = some d)
    (hside : d.onSide) (hfree : FreeEdge fates d.node j)
    (hlast : ∀ j' > j, ¬ FreeEdge fates d.node j') :
    NoteFates ids names₀ (ls ++ [l]) (fates ++ [.attached d j]) names
  | place {l : Text} {ls : List Text} {d : Directive} {fates : List Fate} {names : NoteNames}
    (h : NoteFates ids names₀ ls fates names) (hl : directive? l = some d)
    (hnone : d.onSide → ∀ j, ¬ FreeEdge fates d.node j) :
    NoteFates ids names₀ (ls ++ [l]) (fates ++ [.placed d (names.next ids d.node).1])
      (names.next ids d.node).2

/-- The lines that were written, with each attached note on its edge. -/
structure AttachesNotes (fates : List Fate) (out : List Text) : Prop where
  length_eq : out.length = (written fates).length
  nodup_edges : (edges fates).Nodup
  edge : ∀ d j, .attached d j ∈ fates → ∃ e : PlainEdge, plainEdgePattern.isMatch e.text ∧
    e.touches d.node ∧ (written fates)[j]? = some e.text ∧ out[j]? = some (e.labelled d.text)
  other : ∀ j, j ∉ edges fates → out[j]? = (written fates)[j]?

variable {fates : List Fate} {f : Fate} {out : List Text} {j : Nat}

namespace AttachesNotes

theorem nil : AttachesNotes [] [] := ⟨rfl, List.nodup_nil, by simp, fun _ _ ↦ rfl⟩

theorem append (h : AttachesNotes fates out) (hf : f.edge? = none) :
    AttachesNotes (fates ++ [f]) (out ++ f.lines) where
  length_eq := by simp [written_concat, h.length_eq]
  nodup_edges := by simpa [edges, hf] using h.nodup_edges
  edge d j hmem := by
    rcases List.mem_append.mp hmem with hmem | hmem
    · obtain ⟨e, hmatch, htouches, hedge, hlabelled⟩ := h.edge d j hmem
      have hj := (List.getElem?_eq_some_iff.mp hedge).1
      refine ⟨e, hmatch, htouches, ?_, ?_⟩
      · rwa [written_concat, List.getElem?_append_left hj]
      · rwa [List.getElem?_append_left (h.length_eq ▸ hj)]
    · rw [← List.mem_singleton.mp hmem] at hf
      cases hf
  other j hj := by
    have hold : j ∉ edges fates := by simpa [edges, hf] using hj
    rw [written_concat, List.getElem?_append, List.getElem?_append, h.length_eq, h.other j hold]

/-- An edge that has a label takes no other one. -/
theorem not_mem_edges (h : AttachesNotes fates out) {e : PlainEdge}
    (hline : out[j]? = some e.text) : j ∉ edges fates := by
  intro hmem
  obtain ⟨d, hd⟩ := mem_edges.mp hmem
  obtain ⟨e', -, -, -, hlabelled⟩ := h.edge d j hd
  rw [hlabelled] at hline
  exact e'.labelled_ne_text e d.text (Option.some.inj hline)

theorem freeEdge_iff (h : AttachesNotes fates out) {node : Text} :
    FreeEdge fates node j ↔ ∃ e : PlainEdge, out[j]? = some e.text ∧ e.touches node := by
  constructor
  · rintro ⟨hj, e, hline, htouches⟩
    exact ⟨e, by rw [h.other j hj, hline], htouches⟩
  · rintro ⟨e, hline, htouches⟩
    have hj := h.not_mem_edges hline
    exact ⟨hj, e, by rw [← h.other j hj, hline], htouches⟩

theorem attach (h : AttachesNotes fates out) {e : PlainEdge}
    (hmatch : plainEdgePattern.isMatch e.text) (htouches : e.touches d.node)
    (hline : out[j]? = some e.text) :
    AttachesNotes (fates ++ [.attached d j]) (out.set j (e.labelled d.text)) := by
  -- the line is still as it was written, or else it would not be an edge without a label
  have hnew := h.not_mem_edges hline
  have hwritten : written (fates ++ [.attached d j]) = written fates := by
    rw [written_concat, Fate.lines, List.append_nil]
  have hedges : edges (fates ++ [.attached d j]) = edges fates ++ [j] := by simp [edges, Fate.edge?]
  refine ⟨?_, ?_, fun d' j' hmem ↦ ?_, fun j' hj' ↦ ?_⟩
  · rw [hwritten, List.length_set, h.length_eq]
  · rw [hedges]
    simpa using h.nodup_edges.concat hnew
  · rw [hwritten]
    rcases List.mem_append.mp hmem with hmem | hmem
    · obtain ⟨e', hmatch', htouches', hedge, hlabelled⟩ := h.edge d' j' hmem
      have hne : j ≠ j' := by
        rintro rfl
        exact hnew (mem_edges.mpr ⟨d', hmem⟩)
      exact ⟨e', hmatch', htouches', hedge, by rwa [List.getElem?_set_ne hne]⟩
    · obtain ⟨rfl, rfl⟩ := Fate.attached.inj (List.mem_singleton.mp hmem)
      have hj := (List.getElem?_eq_some_iff.mp hline).1
      exact ⟨e, hmatch, htouches, by rw [← h.other _ hnew, hline], List.getElem?_set_self hj⟩
  · rw [hedges, List.mem_append, List.mem_singleton, not_or] at hj'
    rw [hwritten, List.getElem?_set_ne (Ne.symm hj'.2), h.other j' hj'.1]

end AttachesNotes

/-- The edge of a note, by its place among the lines that were written: no edge of the node
stands behind it. -/
theorem set_of_attachToEdge? {node text : Text} {labelled : List Text}
    (h : attachToEdge? node text done = some labelled) (hdone : ∀ x ∈ done, '\n' ∉ x) :
    ∃ (j : Nat) (e : PlainEdge), plainEdgePattern.isMatch e.text ∧ e.touches node ∧
      done.reverse[j]? = some e.text ∧ labelled.reverse = done.reverse.set j (e.labelled text) ∧
      ∀ j' > j, ∀ e' : PlainEdge, done.reverse[j']? = some e'.text → ¬ e'.touches node := by
  obtain ⟨after, edge, edge', before, rfl, rfl, hlabel, hafter⟩ := of_attachToEdge? h
  have hline := hdone edge (by simp)
  obtain ⟨e, rfl, htouches, rfl⟩ := (labelEdge?_eq_some_iff hline).mp hlabel
  refine ⟨before.length, e, isMatch_plainEdgePattern e hline, htouches, by simp, by simp,
    fun j' hj' e' he' ↦ ?_⟩
  have hmem : e'.text ∈ after := by
    obtain ⟨k, rfl⟩ := Nat.exists_eq_add_of_lt hj'
    have hk : after.reverse[k]? = some e'.text := by
      simpa [List.getElem?_append_right, Nat.add_assoc] using he'
    exact List.mem_reverse.mp (List.mem_of_getElem? hk)
  exact not_touches_of_labelEdge? (hdone _ (by simp [hmem])) (hafter _ hmem) rfl

/-- One more line has one fate more, whatever it is. -/
theorem convertNote_fates (hfates : NoteFates ids names₀ ls fates names)
    (hattaches : AttachesNotes fates done.reverse) (hdone : ∀ x ∈ done, '\n' ∉ x) (l : Text) :
    ∃ f, NoteFates ids names₀ (ls ++ [l]) (fates ++ [f]) (convertNote ids done names l).2 ∧
      AttachesNotes (fates ++ [f]) (convertNote ids done names l).1.reverse := by
  cases hl : directive? l with
  | none =>
    rw [convertNote_eq hl, List.reverse_cons]
    exact ⟨.kept l, hfates.keep hl, hattaches.append rfl⟩
  | some d =>
    rw [convertNote_of_directive? hl]
    split
    · rename_i labelled hattach
      obtain ⟨hside, hattach⟩ := Option.ite_none_right_eq_some.mp hattach
      obtain ⟨j, e, hmatch, htouches, hline, hset, hlast⟩ := set_of_attachToEdge? hattach hdone
      have hfree : FreeEdge fates d.node j := hattaches.freeEdge_iff.mpr ⟨e, hline, htouches⟩
      have hlast : ∀ j' > j, ¬ FreeEdge fates d.node j' := by
        intro j' hj' hfree'
        obtain ⟨e', hline', htouches'⟩ := hattaches.freeEdge_iff.mp hfree'
        exact hlast j' hj' e' hline' htouches'
      refine ⟨.attached d j, hfates.attach hl hside hfree hlast, ?_⟩
      rw [hset]
      exact hattaches.attach hmatch htouches hline
    · rename_i hattach
      have hnone : d.onSide → ∀ j, ¬ FreeEdge fates d.node j := by
        intro hside j hfree
        rw [if_pos hside] at hattach
        obtain ⟨e, hline, htouches⟩ := hattaches.freeEdge_iff.mp hfree
        have hmem : e.text ∈ done := List.mem_reverse.mp (List.mem_of_getElem? hline)
        exact not_touches_of_labelEdge? (hdone _ hmem)
          (labelEdge?_of_attachToEdge? hattach _ hmem) rfl htouches
      refine ⟨.placed d (names.next ids d.node).1, hfates.place hl hnone, ?_⟩
      rw [List.reverse_append]
      exact hattaches.append rfl

theorem convertNoteLines_fates (hfates : NoteFates ids names₀ ls fates names)
    (hattaches : AttachesNotes fates done.reverse) (hdone : ∀ x ∈ done, '\n' ∉ x)
    (hls : ∀ x ∈ ls', '\n' ∉ x) :
    ∃ fates', NoteFates ids names₀ (ls ++ ls') fates' (convertNoteLines ids done names ls').2 ∧
      AttachesNotes fates' (convertNoteLines ids done names ls').1 := by
  -- the lines read so far grow from behind, as the fates and the output do
  induction ls' generalizing ls fates done names with
  | nil => exact ⟨fates, by simpa [convertNoteLines] using hfates, hattaches⟩
  | cons l ls' ih =>
    rw [List.forall_mem_cons] at hls
    obtain ⟨f, hfates, hattaches⟩ := convertNote_fates hfates hattaches hdone l
    have hdone := (convertsNote ids done names l).not_mem (c := '\n') (by decide) hdone hls.1
    obtain ⟨fates', hfates, hattaches⟩ := ih hfates hattaches hdone hls.2
    rw [List.append_assoc, List.singleton_append] at hfates
    exact ⟨fates', hfates, hattaches⟩

theorem isFoldedIdent_of_isNoteName {node name : Text} (hnode : IsFoldedIdent node)
    (h : IsNoteName node name) : IsFoldedIdent name := by
  have hnote : ∀ c ∈ Text.of "Note", isFoldedIdentChar c := by decide
  rcases h with rfl | ⟨n, rfl⟩
  · exact ⟨by simp [Text.of], List.forall_mem_append.mpr ⟨hnote, hnode.2⟩⟩
  · refine ⟨by simp [Text.of], List.forall_mem_append.mpr ⟨hnote, List.forall_mem_append.mpr
      ⟨hnode.2, List.forall_mem_cons.mpr ⟨by decide, fun c hc ↦ ?_⟩⟩⟩⟩
    exact isFoldedIdentChar_of_isIdentChar (isIdentChar_of_isDigit (isDigit_of_mem_ofNat hc))

/-- Names of notes are words, and so none of the lines that take the place of a note is one. -/
theorem NoteFates.directive?_written (h : NoteFates ids names₀ ls fates names) :
    ∀ x ∈ written fates, directive? x = none := by
  induction h with
  | nil => simp [written]
  | keep h hl ih =>
    rw [written_concat, List.forall_mem_append]
    exact ⟨ih, by simpa [Fate.lines] using hl⟩
  | attach h hl hside hfree hlast ih => simpa [written_concat, Fate.lines] using ih
  | @place l ls d fates names h hl hnone ih =>
    have hnote := isNote_of_directive? hl
    have hname := isFoldedIdent_of_isNoteName hnote.isFoldedIdent_node
      (isNoteName_next names ids d.node)
    rw [written_concat, List.forall_mem_append]
    refine ⟨ih, ?_⟩
    simp only [Fate.lines, List.append_assoc, List.forall_mem_cons, List.not_mem_nil,
      false_implies, implies_true, and_true]
    constructor
    · exact directive?_eq_none (not_isNote_of_word hnote.blank_indent hname (.inl ⟨_, rfl⟩))
    · exact directive?_eq_none (not_isNote_of_word hnote.blank_indent hnote.isFoldedIdent_node
        (.inr ⟨'-', _, rfl, .inl rfl⟩))

theorem PlainEdge.directive?_labelled (e : PlainEdge) (note : Text) :
    directive? (e.labelled note) = none := by
  refine directive?_eq_none (not_isNote_of_word e.blank_indent
    (isFoldedIdent_of_isIdent e.isIdent_source) ?_)
  rcases e.label_cases with hlabel | ⟨x, hlabel, -⟩
  · rw [hlabel]
    exact .inr ⟨'-', _, rfl, .inl rfl⟩
  · rw [hlabel]
    exact .inl ⟨_, rfl⟩

theorem AttachesNotes.directive?_out (h : AttachesNotes fates out)
    (hwritten : ∀ x ∈ written fates, directive? x = none) : ∀ x ∈ out, directive? x = none := by
  intro x hx
  obtain ⟨j, hj⟩ := List.mem_iff_getElem?.mp hx
  by_cases hmem : j ∈ edges fates
  · obtain ⟨d, hd⟩ := mem_edges.mp hmem
    obtain ⟨e, -, -, -, hlabelled⟩ := h.edge d j hd
    obtain rfl := Option.some.inj (hj.symm.trans hlabelled)
    exact e.directive?_labelled d.text
  · rw [h.other j hmem] at hj
    exact hwritten x (List.mem_of_getElem? hj)

end Rule

namespace RepairRule

open Rule

/-- The notes of a flowchart are gone after one pass: each of them labels an edge of its node that
had no label and stood before it, or leaves two lines in its place. No edge is labelled twice, and
every other line stays what and where it was. Lines that the pass writes are no notes, so another
pass finds nothing. -/
theorem convertNoteDirectives_attachesNotes {ctx : RepairContext}
    (hkind : ctx.kind = .flowchart ∨ ctx.kind = .unknown) (names : NoteNames) (content : Text) :
    ∃ t names', convertNoteDirectives.apply ctx names content = .ok (t, names') ∧
      (∀ l ∈ Text.lines t,
        sideNotePattern.isMatch l = false ∧ quotedNotePattern.isMatch l = false) ∧
      (∀ names, convertNoteDirectives.apply ctx names t = .ok (t, names)) ∧
      ∃ fates, NoteFates ctx.ids.ids names (Text.lines content) fates names' ∧
        AttachesNotes fates (Text.lines t) := by
  have hflow : ctx.kind.isFlowchart := by rcases hkind with hkind | hkind <;> rw [hkind] <;> rfl
  have happly : ∀ names t, convertNoteDirectives.apply ctx names t =
      .ok (Rule.convertNoteDirectives ctx.ids.ids names t) := by
    simp [convertNoteDirectives, onFlowcharts, hflow]
  have hstart : NoteFates ctx.ids.ids names [] [] names := .nil
  have hempty : AttachesNotes [] ([] : List Text).reverse := .nil
  obtain ⟨fates, hfates, hattaches⟩ := convertNoteLines_fates hstart hempty (by simp)
    fun _ hx ↦ Text.newline_not_mem_of_mem_lines (t := content) hx
  rw [← lines_convertNoteDirectives] at hattaches
  have hnone := hattaches.directive?_out hfates.directive?_written
  refine ⟨_, _, happly names content, fun l hl ↦ directive?_eq_none_iff.mp (hnone l hl), ?_, fates,
    hfates, hattaches⟩
  exact fun names' ↦ (happly names' _).trans (congrArg _ (convertNoteDirectives_eq hnone _ _))

theorem convertNoteDirectives_attachesNotes_twoNotes :
    let ctx : RepairContext := ⟨⟨[], []⟩, .flowchart⟩
    let content := Text.of "A --> B\nnote left of B : why\n  note right of A : how\nB --- C"
    (ctx.kind = .flowchart ∨ ctx.kind = .unknown) ∧
    ∃ fates names', NoteFates ctx.ids.ids {} (Text.lines content) fates names' ∧
      AttachesNotes fates [Text.of "A -- \"why\" --> B", Text.of "  NoteA[\"how\"]",
        Text.of "  A -.- NoteA", Text.of "B --- C"] := by
  intro ctx content
  have hkind : ctx.kind = .flowchart ∨ ctx.kind = .unknown := .inl rfl
  obtain ⟨t, names', happly, -, -, fates, hfates, hattaches⟩ :=
    convertNoteDirectives_attachesNotes hkind {} content
  have ht : t = Text.of
      "A -- \"why\" --> B\n  NoteA[\"how\"]\n  A -.- NoteA\nB --- C" := by
    have hrun := congrArg Prod.fst (Except.ok.inj happly)
    exact hrun.symm.trans (by decide)
  rw [ht] at hattaches
  exact ⟨hkind, fates, names', hfates, hattaches⟩

end RepairRule

end DiagramRepair
