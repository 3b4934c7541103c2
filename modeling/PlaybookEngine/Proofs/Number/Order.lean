import PlaybookEngine.Number.Binary64

namespace PlaybookEngine.Binary64

theorem lt_irrefl (x : Binary64) : x.lt x = false := by
  cases x with
  | nan => rfl
  | inf neg => cases neg <;> rfl
  | finite x => simp [lt]

theorem lt_trans {x y z : Binary64} (hxy : x.lt y = true) (hyz : y.lt z = true) :
    x.lt z = true := by
  cases x with
  | nan => cases hxy
  | inf a =>
    cases y with
    | nan => cases hxy
    | inf b =>
      cases z with
      | nan => cases hyz
      | inf c => cases a <;> cases b <;> cases c <;> simp_all [lt]
      | finite z => cases a <;> cases b <;> simp_all [lt]
    | finite y =>
      cases z with
      | nan => cases hyz
      | inf c => cases a <;> cases c <;> simp_all [lt]
      | finite z => exact hxy
  | finite x =>
    cases y with
    | nan => cases hxy
    | inf b =>
      cases z with
      | nan => cases hyz
      | inf c => cases b <;> cases c <;> simp_all [lt]
      | finite z => cases b <;> simp_all [lt]
    | finite y =>
      cases z with
      | nan => cases hyz
      | inf c => exact hyz
      | finite z =>
        simp only [lt, decide_eq_true_eq] at hxy hyz ⊢
        omega

end PlaybookEngine.Binary64
