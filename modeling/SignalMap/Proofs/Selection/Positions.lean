import SignalMap.Value

/-!
The elements of an array by their positions. Going through a window of an array with
a step takes the elements whose distance from the first position of the window is a
multiple of the step.
-/

namespace SignalMap.NumericArray

def pick (a : NumericArray) (test : Nat → Bool) : NumericArray :=
  ⟨a.dtype, (a.values.zipIdx.filter fun element => test element.2).map Prod.fst⟩

def onStride (step start stop p : Nat) : Bool :=
  decide (start ≤ p ∧ p < stop ∧ step ∣ p - start)

section Strides

variable {step start stop p : Nat}

theorem onStride_start (h : start < stop) : onStride step start stop start = true := by
  simp [onStride, h]

theorem onStride_of_lt (h : p < start) : onStride step start stop p = false :=
  decide_eq_false fun hin => Nat.not_le_of_lt h hin.1

theorem onStride_of_le (h : stop ≤ p) : onStride step start stop p = false :=
  decide_eq_false fun hin => Nat.not_lt_of_le h hin.2.1

/-- Behind the beginning of a window the next position is a step away. -/
theorem onStride_next (hp : start < p) :
    onStride step start stop p = onStride step (start + step) stop p := by
  have hsub : p - (start + step) = p - start - step := Nat.sub_add_eq p start step
  unfold onStride
  rw [decide_eq_decide, hsub]
  constructor
  · rintro ⟨_, hlast, hdvd⟩
    have hle : step ≤ p - start := Nat.le_of_dvd (by omega) hdvd
    exact ⟨by omega, hlast, Nat.dvd_sub hdvd (Nat.dvd_refl step)⟩
  · rintro ⟨hle, hlast, hdvd⟩
    exact ⟨by omega, hlast, (Nat.dvd_sub_iff_left (by omega) (Nat.dvd_refl step)).mp hdvd⟩

end Strides

variable {α : Type}

theorem everyFrom_eq_drop (step wait : Nat) (xs : List α) :
    everyFrom step wait xs = everyFrom step 0 (xs.drop wait) := by
  induction xs generalizing wait with
  | nil =>
    rw [List.drop_nil]
    cases wait <;> rfl
  | cons x rest ih =>
    cases wait with
    | zero => rfl
    | succ wait =>
      rw [List.drop_succ_cons]
      exact ih wait

/-- A window that is gone through with a step, where the first element stands at the
position `base`. The induction is on the elements; behind one that is taken the window
begins a step later. -/
theorem everyFrom_window {step : Nat} (hstep : 1 ≤ step) (xs : List α) (base start stop : Nat) :
    everyFrom step 0 ((xs.take stop).drop start) =
      ((xs.zipIdx base).filter fun element =>
        onStride step (base + start) (base + stop) element.2).map Prod.fst := by
  induction xs generalizing base start stop with
  | nil => simp [everyFrom]
  | cons x rest ih =>
    have hbehind : ∀ element ∈ rest.zipIdx (base + 1), base < element.2 := by
      intro element helement
      exact List.le_snd_of_mem_zipIdx helement
    rw [List.zipIdx_cons, List.filter_cons]
    dsimp only
    cases stop with
    | zero =>
      rw [Nat.add_zero]
      have hnone : ∀ element ∈ rest.zipIdx (base + 1),
          ¬ onStride step (base + start) base element.2 = true := by
        intro element helement
        rw [onStride_of_le (Nat.le_of_lt (hbehind element helement))]
        exact Bool.false_ne_true
      rw [List.filter_eq_nil_iff.mpr hnone, onStride_of_le (Nat.le_refl base)]
      simp [everyFrom]
    | succ stop =>
      have hstop : base + (stop + 1) = base + 1 + stop := by omega
      rw [List.take_succ_cons, hstop]
      cases start with
      | zero =>
        rw [Nat.add_zero, List.drop_zero, if_pos (onStride_start (by omega)), List.map_cons,
          everyFrom, everyFrom_eq_drop, ih (base + 1) (step - 1) stop]
        have hnext : base + 1 + (step - 1) = base + step := by omega
        rw [hnext]
        have hsame : ∀ element ∈ rest.zipIdx (base + 1),
            onStride step (base + step) (base + 1 + stop) element.2 =
              onStride step base (base + 1 + stop) element.2 :=
          fun element helement => (onStride_next (hbehind element helement)).symm
        rw [List.filter_congr hsame]
      | succ start =>
        have hstart : base + (start + 1) = base + 1 + start := by omega
        rw [List.drop_succ_cons, ih (base + 1) start stop, hstart, onStride_of_lt (by omega)]
        rfl

/-- Cutting with a step takes the positions of the window that are a multiple of the
step away from its beginning. -/
theorem strided_eq_pick {step : Nat} (hstep : 1 ≤ step) (a : NumericArray) (start stop : Nat) :
    a.strided start stop step = a.pick (onStride step start stop) := by
  unfold strided pick
  rw [everyFrom_window hstep a.values 0 start stop]
  simp only [Nat.zero_add]

end SignalMap.NumericArray
