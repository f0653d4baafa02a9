import Saliwen.Fbm320.Calculate
import Saliwen.Lib.Range

/-!
# Intermediate values of `Calculate()`

Every value that one branch of `Calculate()` computes on its way, evaluated over the
unbounded integers and listed stage by stage in program order. An arithmetic that stores
all these values unchanged computes the same results.
-/

namespace Saliwen.Fbm320

section Stages

variable (k : Formula) (c : Locals)

/-- The values from `DT` to `DT2`, with those of `RT`. -/
def temperatureValues (ut : ℤ) : List ℤ :=
  let t := temperature id k c ut
  [ut - 8388608, (ut - 8388608) >>> (4 : ℕ), c.c0 <<< (4 : ℕ), t.dt,
    c.c1 + k.k1, (c.c1 + k.k1) * t.dt, t.x01,
    c.c2 - 256, (c.c2 - 256) * t.dt, ((c.c2 - 256) * t.dt) >>> (14 : ℕ),
    (((c.c2 - 256) * t.dt) >>> (14 : ℕ)) * t.dt, t.x02,
    c.c3 * t.dt, (c.c3 * t.dt) >>> (18 : ℕ), ((c.c3 * t.dt) >>> (18 : ℕ)) * t.dt,
    (((c.c3 * t.dt) >>> (18 : ℕ)) * t.dt) >>> (18 : ℕ), t.x03,
    (2500 : ℤ) <<< (15 : ℕ), (2500 : ℤ) <<< (15 : ℕ) - t.x01,
    (2500 : ℤ) <<< (15 : ℕ) - t.x01 - t.x02, (2500 : ℤ) <<< (15 : ℕ) - t.x01 - t.x02 - t.x03, t.rt,
    t.x01 + t.x02, t.x01 + t.x02 + t.x03, t.dt2]

/-- The values from `X11` to `X13`. -/
def offsetValues (dt2 : ℤ) : List ℤ :=
  let x11 := (c.c5 - k.k5) * dt2
  let x12 := (((c.c6 * dt2) >>> (16 : ℕ)) * dt2) >>> (2 : ℕ)
  [c.c5 - k.k5, x11,
    c.c6 * dt2, (c.c6 * dt2) >>> (16 : ℕ), ((c.c6 * dt2) >>> (16 : ℕ)) * dt2, x12,
    x11 + x12, (x11 + x12) >>> (10 : ℕ), c.c4 + k.k4, (c.c4 + k.k4) <<< (4 : ℕ),
    offset id k c dt2]

/-- The values of `X21` and `X22`. -/
def slopeValues (dt2 : ℤ) : List ℤ :=
  [c.c8 + k.k8, (c.c8 + k.k8) * dt2, ((c.c8 + k.k8) * dt2) >>> (10 : ℕ),
    c.c9 * dt2, (c.c9 * dt2) >>> (17 : ℕ), ((c.c9 * dt2) >>> (17 : ℕ)) * dt2,
    (((c.c9 * dt2) >>> (17 : ℕ)) * dt2) >>> (12 : ℕ)]

/-- The values from `X23` to `X26`, those of the branch taken. -/
def gainValues (x21 x22 : ℤ) : List ℤ :=
  let g := gain id k c x21 x22
  let sum := if x22 - x21 < 0 then 0 - g.x24 - g.x25 else g.x24 + g.x25
  [g.x23, g.x23 >>> (11 : ℕ), c.c7 + k.k7, g.x24,
    lowBits 11 g.x23, lowBits 11 g.x23 * (c.c7 + k.k7), g.x25, x22 - x21] ++
    (if x22 - x21 < 0 then [0 - g.x24] else []) ++
    [sum, sum >>> (11 : ℕ), sum >>> (11 : ℕ) + c.c7, g.x26]

/-- The values from `PP2` to `PP4`. -/
def scaledValues (x26 pp1 : ℤ) : List ℤ :=
  let p := scaled id x26 pp1
  [x26 >>> (11 : ℕ), p.pp2, lowBits 11 x26, lowBits 11 x26 * pp1, p.pp3, p.pp2 + p.pp3, p.pp4]

/-- The values of `CF`, `X31`, `X32` and `RP`. -/
def pressureValues (dt2 pp4 : ℤ) : List ℤ :=
  let cf := (2097152 + c.c12 * dt2) >>> (3 : ℕ)
  let x31 := (((cf * c.c10) >>> (17 : ℕ)) * pp4) >>> (2 : ℕ)
  let x32 := ((((cf * c.c11) >>> (15 : ℕ)) * pp4) >>> (18 : ℕ)) * pp4
  [c.c12 * dt2, 2097152 + c.c12 * dt2, cf,
    cf * c.c10, (cf * c.c10) >>> (17 : ℕ), ((cf * c.c10) >>> (17 : ℕ)) * pp4, x31,
    cf * c.c11, (cf * c.c11) >>> (15 : ℕ), ((cf * c.c11) >>> (15 : ℕ)) * pp4,
    (((cf * c.c11) >>> (15 : ℕ)) * pp4) >>> (18 : ℕ), x32,
    x31 + x32, (x31 + x32) >>> (15 : ℕ), (x31 + x32) >>> (15 : ℕ) + pp4, pressure id c dt2 pp4]

/-- `X21`, over the unbounded integers. -/
def slope (dt2 : ℤ) : ℤ := ((c.c8 + k.k8) * dt2) >>> (10 : ℕ)

/-- `X22`, over the unbounded integers. -/
def curvature (dt2 : ℤ) : ℤ := (((c.c9 * dt2) >>> (17 : ℕ)) * dt2) >>> (12 : ℕ)

/-- `X26`, over the unbounded integers. -/
def exactGain (dt2 : ℤ) : ℤ := (gain id k c (slope k c dt2) (curvature c dt2)).x26

/-- `PP1`, over the unbounded integers. -/
def exactPp1 (up dt2 : ℤ) : ℤ := (up - 8388608 - offset id k c dt2) >>> (3 : ℕ)

/-- Every value that the branch computes for the raw pressure `up` and the raw temperature
`ut`. -/
def values (up ut : ℤ) : List ℤ :=
  let dt2 := (temperature id k c ut).dt2
  let pp1 := exactPp1 k c up dt2
  temperatureValues k c ut ++ offsetValues k c dt2 ++ slopeValues k c dt2 ++
    gainValues k c (slope k c dt2) (curvature c dt2) ++
    [up - 8388608, up - 8388608 - offset id k c dt2, pp1] ++
    scaledValues (exactGain k c dt2) pp1 ++
    pressureValues c dt2 (scaled id (exactGain k c dt2) pp1).pp4

end Stages

section Stored

variable {w : ℤ → ℤ} {k : Formula} {c : Locals}

/-- The temperature is exact where its values are stored as they are. -/
theorem temperature_eq_of_stored {ut : ℤ} (h : ∀ v ∈ temperatureValues k c ut, w v = v) :
    temperature w k c ut = temperature id k c ut := by
  simp only [temperatureValues, List.forall_mem_cons, temperature, id_eq] at h ⊢
  obtain ⟨h1, -, h2, h3, h4, h5, -, h6, h7, -, h8, -, h9, -, h10, -, h11, h12, h13, h14, h15, -,
    h16, h17, -⟩ := h
  simp only [h1, h2, h3, h4, h5, h6, h7, h8, h9, h10, h11, h12, h13, h14, h15, h16, h17]

/-- The offset is exact where its values are stored as they are. -/
theorem offset_eq_of_stored {dt2 : ℤ} (h : ∀ v ∈ offsetValues k c dt2, w v = v) :
    offset w k c dt2 = offset id k c dt2 := by
  simp only [offsetValues, List.forall_mem_cons, offset, id_eq] at h ⊢
  obtain ⟨h1, h2, h3, -, h4, -, h5, -, h6, h7, h8, -⟩ := h
  simp only [h1, h2, h3, h4, h5, h6, h7, h8]

/-- The gain is exact where its values are stored as they are. -/
theorem gain_eq_of_stored {x21 x22 : ℤ} (h : ∀ v ∈ gainValues k c x21 x22, w v = v) :
    gain w k c x21 x22 = gain id k c x21 x22 := by
  by_cases hge : x22 ≥ x21
  · have hnot : ¬ x22 - x21 < 0 := by omega
    simp only [gainValues, List.forall_mem_cons, List.forall_mem_append, gain, id_eq, if_pos hge,
      if_neg hnot] at h ⊢
    obtain ⟨⟨⟨h1, -, h2, h3, -, h4, -, -⟩, -⟩, h5, -, h6, h7, -⟩ := h
    simp only [h1, h2, h3, h4, h5, h6, h7, if_neg hnot]
  · have hlt : x22 - x21 < 0 := by omega
    simp only [gainValues, List.forall_mem_cons, List.forall_mem_append, gain, id_eq, if_neg hge,
      if_pos hlt] at h ⊢
    obtain ⟨⟨⟨h1, -, h2, h3, -, h4, -, h5, -⟩, h6, -⟩, h7, -, h8, h9, -⟩ := h
    simp only [h1, h2, h3, h4, h5, h6, h7, h8, h9, if_pos hlt]

/-- The scaled product is exact where its values are stored as they are. -/
theorem scaled_eq_of_stored {x26 pp1 : ℤ} (h : ∀ v ∈ scaledValues x26 pp1, w v = v) :
    scaled w x26 pp1 = scaled id x26 pp1 := by
  simp only [scaledValues, List.forall_mem_cons, scaled, id_eq] at h ⊢
  obtain ⟨-, h1, -, h2, -, h3, -⟩ := h
  simp only [h1, h2, h3]

/-- The pressure is exact where its values are stored as they are. -/
theorem pressure_eq_of_stored {dt2 pp4 : ℤ} (h : ∀ v ∈ pressureValues c dt2 pp4, w v = v) :
    pressure w c dt2 pp4 = pressure id c dt2 pp4 := by
  simp only [pressureValues, List.forall_mem_cons, pressure, id_eq] at h ⊢
  obtain ⟨h1, h2, -, h3, -, h4, -, h5, -, h6, -, h7, h8, -, h9, h10, -⟩ := h
  simp only [h1, h2, h3, h4, h5, h6, h7, h8, h9, h10]

/-- An arithmetic that stores every intermediate value unchanged computes the results of the
unbounded integers. -/
theorem compensate_eq_of_stored {up ut : ℤ} (h : ∀ v ∈ values k c up ut, w v = v) :
    compensate w k c up ut = compensate id k c up ut := by
  simp only [values, List.forall_mem_append] at h
  obtain ⟨⟨⟨⟨⟨⟨htemperature, hoffset⟩, hslope⟩, hgain⟩, hpp1⟩, hscaled⟩, hpressure⟩ := h
  have hx21 : w (w (c.c8 + k.k8) * (temperature id k c ut).dt2) >>> (10 : ℕ) =
      slope k c (temperature id k c ut).dt2 := by
    simp only [slopeValues, List.forall_mem_cons] at hslope
    obtain ⟨h1, h2, -⟩ := hslope
    rw [h1, h2, slope]
  have hx22 : w ((w (c.c9 * (temperature id k c ut).dt2) >>> (17 : ℕ)) *
      (temperature id k c ut).dt2) >>> (12 : ℕ) = curvature c (temperature id k c ut).dt2 := by
    simp only [slopeValues, List.forall_mem_cons] at hslope
    obtain ⟨-, -, -, h1, -, h2, -⟩ := hslope
    rw [h1, h2, curvature]
  have hup : w (w (up - 8388608) - offset id k c (temperature id k c ut).dt2) >>> (3 : ℕ) =
      exactPp1 k c up (temperature id k c ut).dt2 := by
    simp only [List.forall_mem_cons] at hpp1
    obtain ⟨h1, h2, -⟩ := hpp1
    rw [h1, h2, exactPp1]
  unfold compensate
  dsimp only
  rw [temperature_eq_of_stored htemperature, offset_eq_of_stored hoffset, hx21, hx22,
    gain_eq_of_stored hgain, hup]
  exact Prod.ext ((congrArg _ (congrArg Scaled.pp4 (scaled_eq_of_stored hscaled))).trans
    (pressure_eq_of_stored hpressure)) rfl

end Stored

end Saliwen.Fbm320
