import DiagramRepair.Refine

namespace DiagramRepair

variable {α β : Type} {f : Text → Verdict}

/-- The answer does not depend on what was asked before. -/
def Steady (q : Asking α) : Prop := ∀ asked asked', (q.run asked).1 = (q.run asked').1

theorem Steady.bind {q : Asking α} {k : α → Asking β} (hq : Steady q) (hk : ∀ a, Steady (k a)) :
    Steady (q >>= k) := by
  intro asked asked'
  calc ((q >>= k).run asked).1
      = ((k (q.run asked).1).run (q.run asked).2).1 := rfl
    _ = ((k (q.run asked').1).run (q.run asked).2).1 := by rw [hq asked asked']
    _ = ((k (q.run asked').1).run (q.run asked').2).1 := hk _ _ _

end DiagramRepair
