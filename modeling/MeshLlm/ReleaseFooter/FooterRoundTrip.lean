import MeshLlm.ReleaseFooter.Footer

/-! # Stamped files

A footer that was stamped is read back, stamping again replaces it, and a stamped file
that was cut short is refused: whatever stands where a footer would begin, a cut footer
cannot be read as one.
-/
namespace MeshLlm.ReleaseFooter

theorem length_footerBytes (payloadLen : ℕ) : (footerBytes payloadLen).length = embeddedReleaseFooterLen := by
  simp [footerBytes,embeddedReleaseFooterMagic,embeddedReleaseFooterLen]

theorem parse_footerBytes {payloadLen : ℕ} (h : payloadLen < 2^64) :
    parseEmbeddedReleaseFooterFields (footerBytes payloadLen) = ⟨embeddedReleaseFooterVersion,payloadLen,0⟩ := by
  have hversion : bytesAt (footerBytes payloadLen) 8 4 = leBytes 4 embeddedReleaseFooterVersion := by
    simpa [footerBytes,embeddedReleaseFooterMagic] using bytesAt_flatten [embeddedReleaseFooterMagic]
      (leBytes 4 embeddedReleaseFooterVersion) [leBytes 8 payloadLen,leBytes 4 0]
  have hlen : bytesAt (footerBytes payloadLen) 12 8 = leBytes 8 payloadLen := by
    simpa [footerBytes,embeddedReleaseFooterMagic] using bytesAt_flatten
      [embeddedReleaseFooterMagic,leBytes 4 embeddedReleaseFooterVersion] (leBytes 8 payloadLen) [leBytes 4 0]
  have hreserved : bytesAt (footerBytes payloadLen) 20 4 = leBytes 4 0 := by
    simpa [footerBytes,embeddedReleaseFooterMagic] using bytesAt_flatten
      [embeddedReleaseFooterMagic,leBytes 4 embeddedReleaseFooterVersion,leBytes 8 payloadLen] (leBytes 4 0) []
  rw [parseEmbeddedReleaseFooterFields,hversion,hlen,hreserved,leValue_u32 (by decide),leValue_u32 (by decide),
    leValue_leBytes h]

theorem lastBytes_append (front : Bytes) {last : Bytes} (h : last.length = embeddedReleaseFooterLen) : lastBytes (front ++ last) = last := by
  rw [lastBytes,List.length_append,h,Nat.add_sub_cancel,List.drop_left]

/-- What is read of a file that ends with a footer. -/
theorem read_stamped (base payload : Bytes) (h : payload.length < 2^64) :
    readEmbeddedReleaseFooter (base ++ payload ++ footerBytes payload.length) = .ok (some ⟨base,payload⟩) := by
  have hfooter := length_footerBytes payload.length
  have hlen : (base ++ payload ++ footerBytes payload.length).length = (base ++ payload).length + embeddedReleaseFooterLen := by
    rw [List.length_append,hfooter]
  have hmagic : (footerBytes payload.length).take 8 = embeddedReleaseFooterMagic := rfl
  unfold readEmbeddedReleaseFooter
  rw [if_neg (by omega)]
  simp only [lastBytes_append _ hfooter,hmagic,parse_footerBytes h,hlen,Nat.add_sub_cancel,ne_eq,not_true_eq_false,if_false]
  rw [if_neg (by simp)]
  have hstart : (base ++ payload).length - payload.length = base.length := by simp
  rw [hstart]
  simp [bytesAt]

/-- What a footer that is returned says about the file. -/
theorem read_some {bytes : Bytes} {footer : EmbeddedReleaseFooter} (h : readEmbeddedReleaseFooter bytes = .ok (some footer)) :
    embeddedReleaseFooterLen ≤ bytes.length ∧ footer.baseBytes ++ footer.payloadBytes ++ lastBytes bytes = bytes := by
  unfold readEmbeddedReleaseFooter readWithoutFooter at h
  dsimp only at h
  split_ifs at h with hshort hmagic hcorrupted htail htail hversion hreserved hoverflow <;> try cases h
  refine ⟨Nat.le_of_not_lt hshort,?_⟩
  simp only [bytesAt]
  have hsplit : bytes.length - embeddedReleaseFooterLen =
      bytes.length - embeddedReleaseFooterLen - (parseEmbeddedReleaseFooterFields (lastBytes bytes)).payloadLen +
        (parseEmbeddedReleaseFooterFields (lastBytes bytes)).payloadLen := by omega
  rw [← List.take_add,← hsplit,lastBytes,List.take_append_drop]

section Truncation

/-- A footer that was cut off still begins with its magic. -/
theorem truncatedFooter_take (payloadLen : ℕ) {kept : ℕ} (hlow : 8 ≤ kept) (hhigh : kept ≤ 23) :
    truncatedFooter ((footerBytes payloadLen).take kept) = true := by
  have hlength : ((footerBytes payloadLen).take kept).length = kept := by
    rw [List.length_take,length_footerBytes,embeddedReleaseFooterLen]
    omega
  have hmagic : embeddedReleaseFooterMagic.length = 8 := rfl
  have hfront : footerPrefixBytes.length = 12 := rfl
  have hfooter : footerBytes payloadLen = footerPrefixBytes ++ (leBytes 8 payloadLen ++ leBytes 4 0) := by
    rw [footerBytes,footerPrefixBytes,List.append_assoc]
  unfold truncatedFooter
  rw [hlength,hmagic,hfront,if_neg (by omega)]
  split
  · rw [List.isPrefixOf_iff_prefix,hfooter,List.take_append_of_le_length (by omega)]
    exact List.take_prefix _ _
  · rw [List.take_take,Nat.min_eq_left hlow]
    rfl

theorem detect_cut (front : Bytes) (payloadLen : ℕ) {kept : ℕ} (hlow : 8 ≤ kept) (hhigh : kept ≤ 23) :
    detectTruncatedFooterTail (front ++ (footerBytes payloadLen).take kept) = true := by
  have hlength : ((footerBytes payloadLen).take kept).length = kept := by
    rw [List.length_take,length_footerBytes,embeddedReleaseFooterLen]
    omega
  unfold detectTruncatedFooterTail
  dsimp only
  have hfile : (front ++ (footerBytes payloadLen).take kept).length = front.length + kept := by rw [List.length_append,hlength]
  rw [List.any_eq_true]
  -- the probed tail begins before the cut footer, or with it
  refine ⟨front.length - (front.length + kept - min (front.length + kept) 23),?_,?_⟩
  · rw [List.mem_range,List.length_drop,hfile,embeddedReleaseFooterLen]
    omega
  · rw [hfile,embeddedReleaseFooterLen,List.drop_drop]
    have hstart : front.length + kept - min (front.length + kept) (24 - 1) +
        (front.length - (front.length + kept - min (front.length + kept) 23)) = front.length := by omega
    rw [hstart,List.drop_left]
    exact truncatedFooter_take payloadLen hlow hhigh

/-- The bytes of a cut footer where a whole one would stand, by their place in the last twenty-four. -/
theorem lastBytes_cut (front : Bytes) (payloadLen : ℕ) {cut : ℕ} (hfront : cut ≤ front.length) {i : ℕ} (hi : i < 12)
    (hcut : i + cut < 24) : (lastBytes (front ++ (footerBytes payloadLen).take (24 - cut)))[cut + i]? = footerPrefixBytes[i]? := by
  have hlength : ((footerBytes payloadLen).take (24 - cut)).length = 24 - cut := by
    rw [List.length_take,length_footerBytes,embeddedReleaseFooterLen]
    omega
  have hfooter : footerBytes payloadLen = footerPrefixBytes ++ (leBytes 8 payloadLen ++ leBytes 4 0) := by
    rw [footerBytes,footerPrefixBytes,List.append_assoc]
  rw [lastBytes,List.getElem?_drop,List.length_append,hlength,embeddedReleaseFooterLen,List.getElem?_append_right (by omega)]
  have hindex : front.length + (24 - cut) - 24 + (cut + i) - front.length = i := by omega
  rw [hindex,List.getElem?_take_of_lt (by omega),hfooter,List.getElem?_append_left hi]

/-- No cut footer is read as a whole one: its magic does not overlap itself, and elsewhere the version or the reserved
field is not what it has to be. -/
theorem cut_refused (front : Bytes) (payloadLen : ℕ) {cut : ℕ} (hfront : cut ≤ front.length) (hlow : 1 ≤ cut) (hhigh : cut ≤ 16)
    (hmagic : (lastBytes (front ++ (footerBytes payloadLen).take (24 - cut))).take 8 = embeddedReleaseFooterMagic) :
    (parseEmbeddedReleaseFooterFields (lastBytes (front ++ (footerBytes payloadLen).take (24 - cut)))).version ≠
        embeddedReleaseFooterVersion ∨
      (parseEmbeddedReleaseFooterFields (lastBytes (front ++ (footerBytes payloadLen).take (24 - cut)))).reserved ≠ 0 := by
  have hbyte := fun i => lastBytes_cut front payloadLen hfront (i := i)
  rcases Nat.lt_or_ge cut 8 with h | h
  · -- the magic would have to begin with one of its later letters
    have hfirst := hbyte 0 (by decide) (by omega)
    rw [Nat.add_zero,← List.getElem?_take_of_lt h,hmagic] at hfirst
    exact absurd hfirst (by interval_cases cut <;> decide)
  rcases Nat.lt_or_ge cut 12 with h' | h'
  · -- a letter of the magic is the high byte of the version
    refine Or.inl fun hversion => ?_
    have hhighByte := hbyte (11 - cut) (by omega) (by omega)
    have hindex : cut + (11 - cut) = 8 + 3 := by omega
    rw [hindex,← getElem?_bytesAt _ 8 4 (by decide)] at hhighByte
    have hsmall : leValue (bytesAt (lastBytes (front ++ (footerBytes payloadLen).take (24 - cut))) 8 4) < 256^3 := by
      have hversion : leValue (bytesAt (lastBytes (front ++ (footerBytes payloadLen).take (24 - cut))) 8 4) = 1 := hversion
      omega
    have hzero := getElem?_of_leValue_lt hsmall (b := (footerPrefixBytes[11 - cut]?).getD 0)
    interval_cases cut <;> exact absurd (hzero hhighByte) (by decide)
  · -- a letter of the magic, or the version, is the low byte of the reserved field
    refine Or.inr fun hreserved => ?_
    have hlowByte := hbyte (20 - cut) (by omega) (by omega)
    have hindex : cut + (20 - cut) = 20 + 0 := by omega
    rw [hindex,← getElem?_bytesAt _ 20 4 (by decide)] at hlowByte
    have hsmall : leValue (bytesAt (lastBytes (front ++ (footerBytes payloadLen).take (24 - cut))) 20 4) < 256^0 := by
      have hreserved : leValue (bytesAt (lastBytes (front ++ (footerBytes payloadLen).take (24 - cut))) 20 4) = 0 := hreserved
      omega
    have hzero := getElem?_of_leValue_lt hsmall (b := (footerPrefixBytes[20 - cut]?).getD 0)
    interval_cases cut <;> exact absurd (hzero hlowByte) (by decide)

/-- A stamped file that lost up to sixteen of its last bytes is refused. -/
theorem read_cut (front : Bytes) (payloadLen : ℕ) {cut : ℕ} (hlow : 1 ≤ cut) (hhigh : cut ≤ 16) :
    ∃ error, readEmbeddedReleaseFooter (front ++ (footerBytes payloadLen).take (24 - cut)) = .error error := by
  have hlength : (front ++ (footerBytes payloadLen).take (24 - cut)).length = front.length + (24 - cut) := by
    rw [List.length_append,List.length_take,length_footerBytes,embeddedReleaseFooterLen]
    omega
  have hdetect : readWithoutFooter (front ++ (footerBytes payloadLen).take (24 - cut)) = .error .truncated := by
    rw [readWithoutFooter,detect_cut front payloadLen (by omega) (by omega),if_pos rfl]
  unfold readEmbeddedReleaseFooter
  dsimp only
  split
  case isTrue => exact ⟨_,hdetect⟩
  case isFalse hlong =>
    have hfront : cut ≤ front.length := by
      rw [hlength,embeddedReleaseFooterLen] at hlong
      omega
    split
    case isTrue =>
      split
      · exact ⟨_,rfl⟩
      · exact ⟨_,hdetect⟩
    case isFalse hmagic =>
      rcases cut_refused front payloadLen hfront hlow hhigh (not_not.mp hmagic) with hversion | hreserved
      · rw [if_pos hversion]
        exact ⟨_,rfl⟩
      · rw [if_pos hreserved]
        split <;> exact ⟨_,rfl⟩

end Truncation

theorem strip_of_none {bytes : Bytes} (h : readEmbeddedReleaseFooter bytes = .ok none) : stripEmbeddedReleaseFooter bytes = .ok bytes := by
  rw [stripEmbeddedReleaseFooter,h]
  rfl

theorem strip_of_some {bytes : Bytes} {footer : EmbeddedReleaseFooter} (h : readEmbeddedReleaseFooter bytes = .ok (some footer)) :
    stripEmbeddedReleaseFooter bytes = .ok footer.baseBytes := by
  rw [stripEmbeddedReleaseFooter,h]
  rfl

theorem stamp_of_strip {bytes base : Bytes} (h : stripEmbeddedReleaseFooter bytes = .ok base) (payload : Bytes) :
    stampEmbeddedReleasePayload bytes payload = .ok (base ++ payload ++ footerBytes payload.length) := by
  rw [stampEmbeddedReleasePayload,h]
  rfl

/-- What a valid verification rests on. -/
theorem verify_valid {sha256Hex : Bytes → String} {verifyPayload : Bytes → Except String EmbeddedReleasePayloadSummary} {bytes : Bytes}
    (h : (verifyEmbeddedReleaseFooter sha256Hex verifyPayload bytes).status = .valid) :
    ∃ footer summary, readEmbeddedReleaseFooter bytes = .ok (some footer) ∧ verifyPayload footer.payloadBytes = .ok summary ∧
      summary.artifactDigest = baseDigest sha256Hex footer.baseBytes := by
  unfold verifyEmbeddedReleaseFooter at h
  split at h
  case h_1 => cases h
  case h_2 => cases h
  case h_3 footer hread =>
    split at h
    case h_1 => cases h
    case h_2 summary hverify =>
      dsimp only at h
      split at h
      case isTrue => cases h
      case isFalse hdigest => exact ⟨footer,summary,hread,hverify,not_not.mp hdigest⟩

/-- For every base that carries no footer and every payload of a machine's length: what was stamped is read back, stamping
again replaces it, and no file cut short by one to sixteen bytes is read at all. For every file: a footer that is returned
is its end, behind the payload and the base; and one that is valid has a payload that the verifier accepts, with the digest
of the base. -/
theorem stamped_footers_read_back (base payload : Bytes) (hbase : readEmbeddedReleaseFooter base = .ok none)
    (hpayload : payload.length < 2^64) :
    (∃ stamped, stampEmbeddedReleasePayload base payload = .ok stamped ∧
      readEmbeddedReleaseFooter stamped = .ok (some ⟨base,payload⟩) ∧
      (∀ second, stampEmbeddedReleasePayload stamped second = stampEmbeddedReleasePayload base second) ∧
      ∀ cut, 1 ≤ cut → cut ≤ 16 → ∃ error, readEmbeddedReleaseFooter (stamped.take (stamped.length - cut)) = .error error) ∧
    (∀ bytes footer, readEmbeddedReleaseFooter bytes = .ok (some footer) →
      (lastBytes bytes).length = embeddedReleaseFooterLen ∧ footer.baseBytes ++ footer.payloadBytes ++ lastBytes bytes = bytes ∧
        stripEmbeddedReleaseFooter bytes = .ok footer.baseBytes) ∧
    ∀ sha256Hex verifyPayload bytes, (verifyEmbeddedReleaseFooter sha256Hex verifyPayload bytes).status = .valid →
      ∃ footer summary, readEmbeddedReleaseFooter bytes = .ok (some footer) ∧ verifyPayload footer.payloadBytes = .ok summary ∧
        summary.artifactDigest = baseDigest sha256Hex footer.baseBytes := by
  have hread := read_stamped base payload hpayload
  refine ⟨⟨_,stamp_of_strip (strip_of_none hbase) payload,hread,fun second => ?_,fun cut hlow hhigh => ?_⟩,
    fun bytes footer h => ?_,fun _ _ _ => verify_valid⟩
  · rw [stamp_of_strip (strip_of_some hread),stamp_of_strip (strip_of_none hbase)]
  · have hfooter : (footerBytes payload.length).length = 24 := length_footerBytes _
    rw [List.length_append,hfooter,List.take_append,List.take_of_length_le (by omega)]
    have hkept : (base ++ payload).length + 24 - cut - (base ++ payload).length = 24 - cut := by omega
    rw [hkept]
    exact read_cut (base ++ payload) payload.length hlow hhigh
  · obtain ⟨hlong,hsplit⟩ := read_some h
    refine ⟨?_,hsplit,strip_of_some h⟩
    rw [lastBytes,List.length_drop]
    omega

/-- A base and a payload of one byte, stamped again with two bytes and cut short by one. -/
theorem stamped_footers_read_back_short :
    ∃ stamped, stampEmbeddedReleasePayload [0] [1] = .ok stamped ∧
      stampEmbeddedReleasePayload stamped [2,3] = stampEmbeddedReleasePayload [0] [2,3] ∧
      (∃ error, readEmbeddedReleaseFooter (stamped.take (stamped.length - 1)) = .error error) ∧
      ∃ footer, readEmbeddedReleaseFooter stamped = .ok (some footer) ∧ footer = ⟨[0],[1]⟩ ∧
        footer.baseBytes ++ footer.payloadBytes ++ lastBytes stamped = stamped := by
  obtain ⟨⟨stamped,hstamp,hread,hagain,hcut⟩,hend,-⟩ := stamped_footers_read_back [0] [1] (by decide) (by decide)
  exact ⟨stamped,hstamp,hagain [2,3],hcut 1 (by decide) (by decide),_,hread,rfl,(hend stamped _ hread).2.1⟩

end MeshLlm.ReleaseFooter
