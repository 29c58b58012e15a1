import MeshLlm.CacheL2.Shelf

/-! # What a hit reads back

A hit carries its segments under their digests. A window on the wire is a view over slices of
them, and reads as the bytes of the wire; so the payload comes back as it was admitted.
-/
namespace MeshLlm.CacheL2
open CacheL3 (Bytes ExactStatePayload)

/-- A view reads as its blocks put together, where they have the length that it claims. -/
theorem CacheBytes.asCow_of_length {view : CacheBytes} (h : (view.blocks.map CacheBytes.blockSlice).flatten.length = view.len) :
    view.asCow = some (view.blocks.map CacheBytes.blockSlice).flatten := by
  unfold CacheBytes.asCow
  cases hview : view.contiguous with
  | none => exact if_pos h
  | some storage =>
    obtain ⟨len,blocks⟩ := view
    unfold CacheBytes.contiguous at hview
    split at hview
    · split_ifs at hview with hwhole
      cases hview
      cases ‹CacheBytes.mk len blocks = _›
      obtain ⟨rfl,rfl⟩ := hwhole
      simp [CacheBytes.blockSlice]
    · cases hview

theorem flatten_filterMap {α β γ : Type*} {f : α → Option β} {g : β → List γ} {whole : α → List γ} {l : List α}
    (h : ∀ a ∈ l, ((f a).map g).getD [] = whole a) : ((l.filterMap f).map g).flatten = (l.map whole).flatten := by
  induction l with
  | nil => rfl
  | cons a l ih =>
    have hrest := ih fun b hb => h b (List.mem_cons_of_mem _ hb)
    have ha := h a List.mem_cons_self
    rw [List.map_cons,List.flatten_cons,← hrest,← ha]
    cases hf : f a with
    | none => rw [List.filterMap_cons_none hf]; rfl
    | some b => rw [List.filterMap_cons_some hf]; rfl

variable {segmentDigest : Bytes → String} {item : Stored} {found : L2Hit}

/-- A window on the wire shows the bytes of the wire. -/
theorem wireView_asCow (hdescribes : Describes segmentDigest item.mirror item.wire item.segments)
    (hpayload : found.payload = item.mirror) (hheld : ∀ p ∈ item.segments, found.segments.get p.1 = some p.2)
    {start stop : ℕ} (hwindow : start ≤ stop) (hstop : stop ≤ item.wire.length) :
    (found.wireView start stop).asCow = some (between item.wire start stop) := by
  have htotal := hdescribes.totalBytes
  have hblocks : ((found.wireView start stop).blocks.map CacheBytes.blockSlice).flatten = between item.wire start stop := by
    have hwhole := hdescribes.adjoins.window item.wire hwindow
    rw [max_eq_right (Nat.zero_le start),min_eq_right hstop] at hwhole
    rw [← hwhole]
    simp only [L2Hit.wireView,hpayload,htotal,min_eq_left (hwindow.trans hstop),min_eq_left hstop]
    apply flatten_filterMap
    rintro ⟨digest,lo,hi⟩ hp
    obtain ⟨-,hrange,hhi⟩ := hdescribes.adjoins.bounds hp
    have hstorage : found.segments.get digest = some (between item.wire lo hi) :=
      hheld (digest,between item.wire lo hi) (List.mem_map.mpr ⟨(digest,lo,hi),hp,rfl⟩)
    dsimp only at hrange hhi ⊢
    rw [hstorage,Option.getD_some,length_between hhi]
    split_ifs with hempty
    · rw [between_of_le hempty]
      rfl
    · have hlo : min (max lo start - lo) (hi - lo) = max lo start - lo := by omega
      have hup : min (min hi stop - lo) (hi - lo) = min hi stop - lo := by omega
      rw [hlo,hup,Option.map_some,Option.getD_some]
      exact between_between (le_max_left lo start) (min_le_left hi stop)
  have hlen : (found.wireView start stop).len = stop - start := by
    simp only [L2Hit.wireView,hpayload,htotal,min_eq_left (hwindow.trans hstop),min_eq_left hstop]
  rw [CacheBytes.asCow_of_length,hblocks]
  rw [hblocks,hlen,length_between hstop]

/-- A hit reads back the payload as it was admitted. -/
theorem toPayload_of_held (hdescribes : Describes segmentDigest item.mirror item.wire item.segments)
    (hpayload : found.payload = item.mirror) (hheld : ∀ p ∈ item.segments, found.segments.get p.1 = some p.2) :
    found.toPayload = some item.payload := by
  have hview : ∀ {start stop : ℕ}, start ≤ stop → stop ≤ item.wire.length →
      (found.wireView start stop).asCow = some (between item.wire start stop) :=
    fun hwindow hstop => wireView_asCow hdescribes hpayload hheld hwindow hstop
  have htotal := hdescribes.totalBytes
  have hall : (found.wireView 0 item.wire.length).asCow = some item.wire := by
    rw [hview (Nat.zero_le _) le_rfl,between_length]
  unfold L2Hit.toPayload Stored.payload
  rw [hpayload]
  dsimp only
  rw [htotal]
  cases item.mirror.kind with
  | fullState => simp only [hall,Option.map_some]
  | recurrentOnly => simp only [hall,Option.map_some]
  | kvRecurrent =>
    have hle : min item.mirror.layout.kvBytes item.wire.length ≤ item.wire.length := min_le_right _ _
    have hkv : between item.wire 0 (min item.mirror.layout.kvBytes item.wire.length) = item.wire.take item.mirror.layout.kvBytes := by
      rw [between,List.drop_zero,Nat.sub_zero,← List.take_eq_take_min]
    have hrecurrent : between item.wire (min item.mirror.layout.kvBytes item.wire.length) item.wire.length =
        item.wire.drop item.mirror.layout.kvBytes := by
      rw [between,List.take_of_length_le (by rw [List.length_drop]),← List.drop_eq_drop_min]
    simp only [hview (Nat.zero_le _) hle,hview hle le_rfl,hkv,hrecurrent]
    rfl

end MeshLlm.CacheL2
