import Mathlib

/-! # Cuts into contiguous ranges

Stages taken in order each receive a nonempty range of an interval, every range
starting where the one before ends. A cut is the list of the ends, and its peak
is the largest cost of a range. A greedy stage never loses a cut, and a least
cut is a least cut of the earlier stages with one more range.
-/
namespace MeshLlm

variable {S T : Type*}

def IsCut (fits : S → ℕ → ℕ → Prop) : ℕ → List S → List ℕ → ℕ → Prop
  | start, [], [], stop => start = stop
  | start, s :: stages, e :: ends, stop => start < e ∧ fits s start e ∧ IsCut fits e stages ends stop
  | _, _, _, _ => False

def cutPeak (cost : S → ℕ → ℕ → ℕ) : ℕ → List S → List ℕ → ℕ
  | start, s :: stages, e :: ends => max (cost s start e) (cutPeak cost e stages ends)
  | _, _, _ => 0

/-- A cut of everything before the stop whose peak no other cut is below. -/
structure IsLeastCut (fits : S → ℕ → ℕ → Prop) (cost : S → ℕ → ℕ → ℕ) (stages : List S) (ends : List ℕ) (stop : ℕ) : Prop where
  cut : IsCut fits 0 stages ends stop
  least : ∀ ends', IsCut fits 0 stages ends' stop → cutPeak cost 0 stages ends ≤ cutPeak cost 0 stages ends'

variable {fits fits' : S → ℕ → ℕ → Prop} {cost : S → ℕ → ℕ → ℕ} {start stop : ℕ} {s : S} {stages : List S} {ends : List ℕ}

attribute [local simp] IsCut cutPeak

theorem IsCut.length_eq (h : IsCut fits start stages ends stop) : ends.length = stages.length := by
  induction stages generalizing start ends with
  | nil => cases ends <;> simp_all [IsCut]
  | cons s stages ih =>
    cases ends with
    | nil => exact h.elim
    | cons e ends => simpa using ih h.2.2

/-- Every range holds something. -/
theorem IsCut.add_length_le (h : IsCut fits start stages ends stop) : start + stages.length ≤ stop := by
  induction stages generalizing start ends with
  | nil => cases ends <;> simp_all [IsCut]
  | cons s stages ih =>
    cases ends with
    | nil => exact h.elim
    | cons e ends =>
      have := ih h.2.2
      have := h.1
      simp only [List.length_cons]
      omega

theorem isCut_nil : IsCut fits start [] ends stop ↔ ends = [] ∧ start = stop := by
  cases ends <;> simp [IsCut]

theorem isCut_singleton : IsCut fits start [s] ends stop ↔ ends = [stop] ∧ start < stop ∧ fits s start stop := by
  cases ends with
  | nil => simp [IsCut]
  | cons e ends =>
    simp only [IsCut,isCut_nil,List.cons.injEq]
    constructor
    · rintro ⟨hlt,hfits,rfl,rfl⟩
      exact ⟨⟨rfl,rfl⟩,hlt,hfits⟩
    · rintro ⟨⟨rfl,rfl⟩,hlt,hfits⟩
      exact ⟨hlt,hfits,rfl,rfl⟩

theorem isCut_concat : IsCut fits start (stages ++ [s]) ends stop ↔
    ∃ ends' mid, ends = ends' ++ [stop] ∧ IsCut fits start stages ends' mid ∧ mid < stop ∧ fits s mid stop := by
  induction stages generalizing start ends with
  | nil =>
    simp only [List.nil_append,isCut_singleton,isCut_nil]
    constructor
    · rintro ⟨rfl,h⟩
      exact ⟨[],start,rfl,⟨rfl,rfl⟩,h⟩
    · rintro ⟨ends',mid,rfl,⟨rfl,rfl⟩,h⟩
      exact ⟨rfl,h⟩
  | cons t stages ih =>
    cases ends with
    | nil => simp [IsCut]
    | cons e ends =>
      simp only [List.cons_append,IsCut,ih]
      constructor
      · rintro ⟨hlt,hfits,ends',mid,rfl,hrest⟩
        exact ⟨e :: ends',mid,rfl,⟨hlt,hfits,hrest.1⟩,hrest.2⟩
      · rintro ⟨ends',mid,heq,hcut,hrest⟩
        cases ends' with
        | nil => exact hcut.elim
        | cons e' ends' =>
          obtain ⟨rfl,rfl⟩ := List.cons.inj heq
          exact ⟨hcut.1,hcut.2.1,ends',mid,rfl,hcut.2.2,hrest⟩

theorem IsCut.cutPeak_concat {mid : ℕ} (h : IsCut fits start stages ends mid) :
    cutPeak cost start (stages ++ [s]) (ends ++ [stop]) = max (cutPeak cost start stages ends) (cost s mid stop) := by
  induction stages generalizing start ends with
  | nil =>
    obtain ⟨rfl,rfl⟩ := isCut_nil.mp h
    simp [cutPeak]
  | cons t stages ih =>
    cases ends with
    | nil => exact h.elim
    | cons e ends => simp only [List.cons_append,cutPeak,ih h.2.2,max_assoc]

theorem IsCut.imp (h : IsCut fits start stages ends stop) (himp : ∀ s ∈ stages, ∀ a b, fits s a b → fits' s a b) :
    IsCut fits' start stages ends stop := by
  induction stages generalizing start ends with
  | nil => cases ends <;> simp_all [IsCut]
  | cons s stages ih =>
    cases ends with
    | nil => exact h.elim
    | cons e ends =>
      exact ⟨h.1,himp s List.mem_cons_self _ _ h.2.1,ih h.2.2 fun t ht => himp t (List.mem_cons_of_mem _ ht)⟩

theorem isCut_map {f : T → S} {stages : List T} :
    IsCut fits start (stages.map f) ends stop ↔ IsCut (fun t => fits (f t)) start stages ends stop := by
  induction stages generalizing start ends with
  | nil => cases ends <;> simp [IsCut]
  | cons t stages ih => cases ends <;> simp [IsCut,ih]

theorem cutPeak_map {f : T → S} {stages : List T} :
    cutPeak cost start (stages.map f) ends = cutPeak (fun t => cost (f t)) start stages ends := by
  induction stages generalizing start ends with
  | nil => simp [cutPeak]
  | cons t stages ih => cases ends <;> simp [cutPeak,ih]

section Greedy

/-- What follows the start lies in the range of some stage. -/
theorem IsCut.covers (h : IsCut fits start stages ends stop) {layer : ℕ} (hstart : start ≤ layer) (hstop : layer < stop) :
    ∃ s ∈ stages, ∃ a b, fits s a b ∧ a ≤ layer ∧ layer < b := by
  induction stages generalizing start ends with
  | nil =>
    obtain ⟨-,rfl⟩ := isCut_nil.mp h
    omega
  | cons s stages ih =>
    cases ends with
    | nil => exact h.elim
    | cons e ends =>
      by_cases hlt : layer < e
      · exact ⟨s,List.mem_cons_self,start,e,h.2.1,hstart,hlt⟩
      · obtain ⟨t,ht,hrest⟩ := ih h.2.2 (by omega)
        exact ⟨t,List.mem_cons_of_mem _ ht,hrest⟩

/-- A smaller range fits where a larger one does. -/
def ShrinksTo (fits : S → ℕ → ℕ → Prop) : Prop :=
  ∀ s a b a' b', fits s a b → a ≤ a' → a' < b' → b' ≤ b → fits s a' b'

/-- Started no earlier than a cut, a stage that fits what any later stage fits takes at least one layer. -/
theorem IsCut.fits_next (h : IsCut fits start (s :: stages) ends stop) (hshrink : ShrinksTo fits)
    (hdescending : ∀ t ∈ stages, ∀ a b, fits t a b → fits s a b) {next : ℕ} (hnext : start ≤ next) (hstop : next < stop) :
    fits s next (next + 1) := by
  obtain ⟨t,ht,a,b,hfits,ha,hb⟩ := h.covers hnext hstop
  have hfits : fits s a b := by
    rcases List.mem_cons.mp ht with rfl | ht
    · exact hfits
    · exact hdescending t ht a b hfits
  exact hshrink s a b next (next + 1) hfits ha (by omega) hb

/-- A stage that takes all it can, leaving one layer for every later stage, ends no earlier than in a cut. -/
theorem IsCut.exchange (h : IsCut fits start (s :: stages) ends stop) (hshrink : ShrinksTo fits) {next e : ℕ}
    (hnext : start ≤ next) (he : next < e) (hgreedy : e + stages.length = stop ∨ ¬fits s next (e + 1)) :
    ∃ mid ends', mid ≤ e ∧ IsCut fits mid stages ends' stop := by
  cases ends with
  | nil => exact h.elim
  | cons mid ends =>
    refine ⟨mid,ends,?_,h.2.2⟩
    have hrest := h.2.2.add_length_le
    by_contra hlt
    rcases hgreedy with heq | hfull
    · omega
    · exact hfull (hshrink s start mid next (e + 1) h.2.1 hnext (by omega) (by omega))

end Greedy

/-- A least cut of the earlier stages for every start, and the best start among them. -/
theorem IsLeastCut.concat (best : ℕ → List ℕ) {mid : ℕ}
    (hbest : ∀ m, m < stop → (∃ ends, IsCut fits 0 stages ends m) → IsLeastCut fits cost stages (best m) m)
    (hcut : IsCut fits 0 stages (best mid) mid) (hlt : mid < stop) (hfits : fits s mid stop)
    (hleast : ∀ m, m < stop → fits s m stop → IsCut fits 0 stages (best m) m →
      max (cutPeak cost 0 stages (best mid)) (cost s mid stop) ≤ max (cutPeak cost 0 stages (best m)) (cost s m stop)) :
    IsLeastCut fits cost (stages ++ [s]) (best mid ++ [stop]) stop := by
  refine ⟨isCut_concat.mpr ⟨_,mid,rfl,hcut,hlt,hfits⟩,?_⟩
  intro ends' hends'
  obtain ⟨ends,m,rfl,hm,hmlt,hmfits⟩ := isCut_concat.mp hends'
  have hleastm := hbest m hmlt ⟨ends,hm⟩
  rw [hcut.cutPeak_concat,hm.cutPeak_concat]
  exact (hleast m hmlt hmfits hleastm.cut).trans (max_le_max_right _ (hleastm.least ends hm))

end MeshLlm
