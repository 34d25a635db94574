import IbverbPrototype.Roce.Adapter

/-! Frames altered on the way: a router may rewrite what the checksum leaves out, and anything
else within 32 consecutive bits gets the frame dropped. -/
namespace IbverbPrototype.Roce
open Foundations Foundations.ByteOrder Foundations.CheckedMemory

/-- What the checksum covers of a body, its trailer included. -/
def covered (body : List Byte) : List Byte := icrcCover (body.take sizeofIbHeaders) ++ body.drop sizeofIbHeaders

theorem icrcCover_length (header : List Byte) : (icrcCover header).length = header.length := List.length_mapIdx

theorem covered_length (body : List Byte) : (covered body).length = body.length := by
  rw [covered, List.length_append, icrcCover_length, ← List.length_append, List.take_append_drop]

/-- A trailer is right exactly if the checksum over all of it leaves the receiver's constant. -/
theorem sealed_iff_residue {body : List Byte} (h : overhead ≤ body.length) :
    sealed body = true ↔ referenceCrc (List.replicate 8 0xFF ++ covered body) = residue := by
  have hover : overhead = sizeofIbHeaders+4 := rfl
  obtain ⟨header,hheader⟩ : ∃ header, body.take sizeofIbHeaders = header := ⟨_,rfl⟩
  obtain ⟨payload,hpayload⟩ : ∃ payload, slice body sizeofIbHeaders (body.length-overhead) = payload := ⟨_,rfl⟩
  obtain ⟨trailer,htrailer⟩ : ∃ trailer, body.drop (body.length-4) = trailer := ⟨_,rfl⟩
  have hh : header.length = sizeofIbHeaders := hheader ▸ List.length_take_of_le (by omega)
  have ht : trailer.length = 4 := by
    rw [← htrailer, List.length_drop]
    omega
  have hrest : body.drop sizeofIbHeaders = payload ++ trailer := by
    have hsplit := List.take_append_drop (body.length-overhead) (body.drop sizeofIbHeaders)
    rw [List.drop_drop, show sizeofIbHeaders+(body.length-overhead) = body.length-4 by omega, htrailer] at hsplit
    rw [← hsplit, ← hpayload, slice]
  have hbody : body = header ++ payload ++ trailer := by
    rw [← List.take_append_drop sizeofIbHeaders body, hheader, hrest, List.append_assoc]
  have hcells : toLittle 4 (ofLittle 32 trailer) = trailer := toLittle_ofLittle ht (by decide)
  have hfront : List.replicate 8 0xFF ++ covered body =
      List.replicate 8 0xFF ++ icrcCover header ++ payload ++ toLittle 4 (ofLittle 32 trailer) := by
    rw [covered, hheader, hrest, hcells]
    simp only [List.append_assoc]
  rw [hfront, residue_iff, hbody, sealed_iff hh ht, icrc]
  constructor
  · intro hseal
    rw [hseal]
    exact ofLittle_toLittle 4 _ (by decide)
  · intro hseal
    rw [← hseal, hcells]

/-- Place k behind the Ethernet header, in checksum order, holds another bit. -/
def Altered (frame frame' : List Byte) (k : Nat) : Prop :=
  (bitStream (frame.drop sizeofEthHdr))[k]? ≠ (bitStream (frame'.drop sizeofEthHdr))[k]?

/-- The bits that are altered lie within 32 consecutive places, the Ethernet header apart. -/
structure Burst (frame frame' : List Byte) : Prop where
  length : frame'.length = frame.length
  window : ∃ start, ∀ k, Altered frame frame' k → start ≤ k ∧ k < start+32

variable {body body' frame frame' : List Byte} {q : QueuePair}

instance (k : Nat) : Decidable (Altered frame frame' k) := inferInstanceAs (Decidable (_ ≠ _))

theorem Altered.lt {k : Nat} (h : Altered frame frame' k) (hlen : frame'.length = frame.length) :
    k < 8*frame.length := by
  by_contra hk
  refine h ?_
  rw [List.getElem?_eq_none (by rw [bitStream_length, List.length_drop]; omega),
    List.getElem?_eq_none (by rw [bitStream_length, List.length_drop]; omega)]

/-- Only finitely many places have to be looked at. -/
theorem burst_iff : Burst frame frame' ↔ frame'.length = frame.length ∧ ∃ start < 8*frame.length+1,
    ∀ k < 8*frame.length, Altered frame frame' k → start ≤ k ∧ k < start+32 := by
  constructor
  · rintro ⟨hlen,start,hwin⟩
    refine ⟨hlen,?_⟩
    by_cases hstart : start < 8*frame.length+1
    · exact ⟨start,hstart,fun k _ => hwin k⟩
    · refine ⟨0,Nat.succ_pos _,?_⟩
      intro k hk haltered
      exact absurd (hwin k haltered).1 (by omega)
  · rintro ⟨hlen,start,-,hwin⟩
    exact ⟨hlen,start,fun k haltered => hwin k (haltered.lt hlen) haltered⟩

instance : DecidableRel Burst := fun _ _ => decidable_of_iff _ burst_iff.symm

/-- Bits outside the middle of three parts stand where they stood when it is replaced. -/
theorem replaced_bits {front xs ys back : List Byte} (hl : ys.length = xs.length) {k : Nat}
    (hk : (bitStream (front ++ xs ++ back))[k]? ≠ (bitStream (front ++ ys ++ back))[k]?) :
    8*front.length ≤ k ∧ k < 8*front.length+8*xs.length := by
  have hlen (zs : List Byte) : (bitStream front ++ bitStream zs).length = 8*front.length+8*zs.length := by
    rw [List.length_append, bitStream_length, bitStream_length]
  simp only [bitStream_append] at hk
  by_contra hout
  rcases Nat.lt_or_ge k (8*front.length) with hlow | hhigh
  · have hfront : k < (bitStream front).length := by rwa [bitStream_length]
    simp only [List.append_assoc, List.getElem?_append_left hfront, ne_eq, not_true_eq_false] at hk
  · rw [List.getElem?_append_right (by rw [hlen]; omega), List.getElem?_append_right (by rw [hlen]; omega), hlen, hlen,
      hl] at hk
    exact hk rfl

/-- Four bytes in a row make a burst. -/
theorem replaced_burst {ethernet front xs ys back : List Byte} (he : ethernet.length = sizeofEthHdr)
    (hl : ys.length = xs.length) (hx : xs.length ≤ 4) :
    Burst (ethernet ++ (front ++ xs ++ back)) (ethernet ++ (front ++ ys ++ back)) where
  length := by simp only [List.length_append, hl]
  window := by
    refine ⟨8*front.length,?_⟩
    intro k hk
    rw [Altered, List.drop_left' he, List.drop_left' he] at hk
    have hin := replaced_bits hl hk
    omega

/-- Behind the headers it always alters a bit that the checksum covers. -/
theorem replaced_altered {ethernet front xs ys back : List Byte} (he : ethernet.length = sizeofEthHdr)
    (hfront : sizeofIbHeaders ≤ front.length) (hl : ys.length = xs.length) (hne : xs ≠ ys) :
    ∃ k, CoveredBit k ∧ Altered (ethernet ++ (front ++ xs ++ back)) (ethernet ++ (front ++ ys ++ back)) k := by
  have hlong : 60 ≤ front.length := hfront
  by_contra hnone
  have hsame : bitStream (front ++ xs ++ back) = bitStream (front ++ ys ++ back) := by
    apply List.ext_getElem?
    intro k
    by_contra hk
    have hin := replaced_bits hl hk
    refine hnone ⟨k,by unfold CoveredBit; omega,?_⟩
    rwa [Altered, List.drop_left' he, List.drop_left' he]
  exact hne (List.append_inj (List.append_cancel_right (bitStream_injective hsame)) rfl).2

/-- Another checksum is a burst that alters covered bits. -/
theorem trailer_burst {header payload trailer trailer' : List Byte} (hh : header.length = dataOffset)
    (ht : trailer.length = 4) (ht' : trailer'.length = 4) :
    Burst (header ++ payload ++ trailer) (header ++ payload ++ trailer') ∧
    (trailer ≠ trailer' →
      ∃ k, CoveredBit k ∧ Altered (header ++ payload ++ trailer) (header ++ payload ++ trailer') k) := by
  obtain ⟨htake,hdrop,hsplit⟩ := frame_split hh payload trailer
  obtain ⟨-,-,hsplit'⟩ := frame_split hh payload trailer'
  have hburst := @replaced_burst _ (header.drop sizeofEthHdr ++ payload) trailer trailer' [] htake (ht'.trans ht.symm) ht.le
  have haltered := @replaced_altered _ (header.drop sizeofEthHdr ++ payload) trailer trailer' [] htake
    (hdrop ▸ List.length_append ▸ Nat.le_add_right _ _) (ht'.trans ht.symm)
  rw [List.append_nil, List.append_nil, ← hsplit, ← hsplit'] at hburst haltered
  exact ⟨hburst,haltered⟩

/-- The covered images of two bodies differ where covered bits of theirs do. -/
theorem covered_ne_iff (hlen : body'.length = body.length) (hlong : sizeofIbHeaders ≤ body.length) (k : Nat) :
    (bitStream (covered body))[k]? ≠ (bitStream (covered body'))[k]? ↔
      CoveredBit k ∧ (bitStream body)[k]? ≠ (bitStream body')[k]? := by
  have hheader : (IbHeaders.ofBytes (body.take sizeofIbHeaders)).bytes = body.take sizeofIbHeaders :=
    IbHeaders.bytes_ofBytes (List.length_take_of_le hlong)
  have hheader' : (IbHeaders.ofBytes (body'.take sizeofIbHeaders)).bytes = body'.take sizeofIbHeaders :=
    IbHeaders.bytes_ofBytes (List.length_take_of_le (by omega))
  have hrest : (body.drop sizeofIbHeaders).length = (body'.drop sizeofIbHeaders).length := by
    rw [List.length_drop, List.length_drop, hlen]
  have hne := cover_ne_iff (IbHeaders.ofBytes (body.take sizeofIbHeaders))
    (IbHeaders.ofBytes (body'.take sizeofIbHeaders)) hrest k
  rw [CoveredDiff, hheader, hheader', List.take_append_drop, List.take_append_drop] at hne
  exact hne

/-- Of two bodies with a right trailer the register can tell nothing apart. -/
theorem sealed_feed (hlen : body'.length = body.length) (hlong : overhead ≤ body.length)
    (hsealed : sealed body = true) (hsealed' : sealed body' = true) :
    ∃ s, ShiftRegister.feed polynomial s (bitStream (covered body)) =
      ShiftRegister.feed polynomial s (bitStream (covered body')) := by
  rw [sealed_iff_residue (hlen ▸ hlong)] at hsealed'
  rw [sealed_iff_residue hlong, ← hsealed', referenceCrc, referenceCrc, bitStream_append,
    bitStream_append _ (covered body'), ShiftRegister.feed_append, ShiftRegister.feed_append] at hsealed
  exact ⟨_,(BitVec.xor_left_inj _).mp hsealed⟩

/-- Two bodies with a right trailer never differ by a burst that the checksum covers. -/
theorem sealed_burst (hlen : body'.length = body.length) (hlong : overhead ≤ body.length) (start : Nat)
    (hwin : ∀ k, (bitStream body)[k]? ≠ (bitStream body')[k]? → start ≤ k ∧ k < start+32)
    (hne : ∃ k, CoveredBit k ∧ (bitStream body)[k]? ≠ (bitStream body')[k]?) (hsealed : sealed body = true) :
    sealed body' = false := by
  have hheaders : sizeofIbHeaders ≤ body.length := (Nat.le_add_right _ 4).trans hlong
  by_contra hsealed'
  obtain ⟨s,hsame⟩ := sealed_feed hlen hlong hsealed (Bool.not_eq_false _ ▸ hsealed')
  refine ShiftRegister.feed_ne_of_window polynomial s (by decide) (by decide) ?_ ?_ start ?_ hsame
  · rw [bitStream_length, bitStream_length, covered_length, covered_length, hlen]
  · intro hsame
    obtain ⟨k,hk⟩ := hne
    exact (covered_ne_iff hlen hheaders k).mpr hk (by rw [hsame])
  · intro k hk
    exact hwin k ((covered_ne_iff hlen hheaders k).mp hk).2

/-- What an adapter admits is long enough and has the right trailer. -/
theorem admits_sealed (h : admits q frame ≠ none) :
    overhead ≤ (frame.drop sizeofEthHdr).length ∧ sealed (frame.drop sizeofEthHdr) = true := by
  rw [admits] at h
  split at h
  case isTrue hgood => exact ⟨hgood.1,hgood.2.2.2⟩
  case isFalse => exact absurd rfl h

/-- A frame that was admitted is dropped by everyone once a burst has altered a covered bit. -/
theorem burst_dropped (h : admits q frame ≠ none) (hburst : Burst frame frame')
    (hne : ∃ k, CoveredBit k ∧ Altered frame frame' k) (q' : QueuePair) : admits q' frame' = none := by
  obtain ⟨hlong,hsealed⟩ := admits_sealed h
  obtain ⟨start,hwin⟩ := hburst.window
  have hlen : (frame'.drop sizeofEthHdr).length = (frame.drop sizeofEthHdr).length := by
    rw [List.length_drop, List.length_drop, hburst.length]
  have hbroken := sealed_burst hlen hlong start hwin hne hsealed
  refine if_neg ?_
  rintro ⟨-,-,-,hsealed'⟩
  exact Bool.false_ne_true (hbroken.symm.trans hsealed')

/-- The cover leaves all fields alone but the five a router may change. -/
theorem icrcCover_slice (header : List Byte) {off n : Nat}
    (h : ∀ i, off ≤ i → i < off+n → ∀ b, coverByte i b = b) : slice (icrcCover header) off n = slice header off n := by
  apply List.ext_getElem?
  intro i
  rw [slice, slice, List.getElem?_take, List.getElem?_take]
  split
  case isTrue hi =>
    rw [List.getElem?_drop, List.getElem?_drop, icrcCover, List.getElem?_mapIdx]
    cases header[off+i]? with
    | none => rfl
    | some b => exact congrArg some (h (off+i) (Nat.le_add_right _ _) (by omega) b)
  case isFalse => rfl

theorem coverByte_eq {i : Nat} (h : i = 4 ∨ i = 5 ∨ i = 6 ∨ 8 ≤ i ∧ i < 44 ∨ 45 ≤ i) (b : Byte) :
    coverByte i b = b := by
  rw [coverByte, if_neg (by omega), if_neg (by omega)]

private theorem high_half : ∀ b : Byte, (b.toNat ||| 15)/16 = b.toNat/16 := by decide

private theorem icrcCover_version (header : List Byte) :
    bigValue (slice (icrcCover header) 0 1)/2^4 = bigValue (slice header 0 1)/2^4 := by
  cases header with
  | nil => rfl
  | cons b header =>
    have hfirst : slice (icrcCover (b::header)) 0 1 = [b ||| 0x0F] := by
      simp [slice, icrcCover, List.mapIdx_cons, coverByte]
    rw [hfirst]
    simp [slice, bigValue, high_half]

theorem parseTransport_take (body : List Byte) :
    WireFormat.parseTransport (body.take sizeofIbHeaders) = WireFormat.parseTransport body := by
  have hslice (off n : Nat) (hoff : off+n ≤ 60) : slice (body.take sizeofIbHeaders) off n = slice body off n := by
    have hinner := @slice_slice _ body 0 sizeofIbHeaders off n hoff
    rwa [Nat.zero_add] at hinner
  simp [WireFormat.parseTransport, hslice]

/-- What an adapter asks of the transport fields can be read off their cover. -/
theorem addressed_cover (q : QueuePair) (ethernet : WireFormat.Ethernet) (header : List Byte) :
    addressed q ethernet (WireFormat.parseTransport (icrcCover header)) =
        addressed q ethernet (WireFormat.parseTransport header) ∧
      (WireFormat.parseTransport (icrcCover header)).payloadLength = (WireFormat.parseTransport header).payloadLength ∧
      (WireFormat.parseTransport (icrcCover header)).padCount = (WireFormat.parseTransport header).padCount := by
  have hslice (off n : Nat) (hoff : off = 4 ∧ n = 2 ∨ off = 6 ∧ n = 1 ∨ 8 ≤ off ∧ off+n ≤ 44 ∨ 45 ≤ off) :
      slice (icrcCover header) off n = slice header off n :=
    icrcCover_slice header (fun i hlow hhigh b => coverByte_eq (by omega) b)
  refine ⟨?_,?_,?_⟩
  · rw [Bool.eq_iff_iff, addressed, addressed, decide_eq_true_iff, decide_eq_true_iff]
    simp only [WireFormat.parseTransport, icrcCover_version, hslice 6 1 (by decide), hslice 24 16 (by decide),
      hslice 40 1 (by decide), hslice 41 1 (by decide), hslice 42 2 (by decide), hslice 45 3 (by decide),
      hslice 52 4 (by decide)]
  · simp only [WireFormat.parseTransport, hslice 4 2 (by decide)]
  · simp only [WireFormat.parseTransport, hslice 41 1 (by decide)]

/-- The cover of a body decides what becomes of its frame, once the Ethernet headers are the same
to the queue pair. -/
theorem admits_covered (hlen : frame'.length = frame.length)
    (hethernet : ∀ t, addressed q (WireFormat.parseEthernet frame') t = addressed q (WireFormat.parseEthernet frame) t)
    (hcovered : covered (frame'.drop sizeofEthHdr) = covered (frame.drop sizeofEthHdr)) :
    admits q frame' = admits q frame := by
  obtain ⟨body,hbody⟩ : ∃ body, frame.drop sizeofEthHdr = body := ⟨_,rfl⟩
  obtain ⟨body',hbody'⟩ : ∃ body', frame'.drop sizeofEthHdr = body' := ⟨_,rfl⟩
  have hlens : body'.length = body.length := by rw [← hbody, ← hbody', List.length_drop, List.length_drop, hlen]
  rw [admits, admits, hbody, hbody', hlens]
  rw [hbody, hbody'] at hcovered
  by_cases hlong : overhead ≤ body.length
  case neg => rw [if_neg (fun h => hlong h.1), if_neg (fun h => hlong h.1)]
  have hover : overhead = sizeofIbHeaders+4 := rfl
  obtain ⟨hheader,hrest⟩ := List.append_inj hcovered (by
    rw [icrcCover_length, icrcCover_length, List.length_take_of_le (by omega), List.length_take_of_le (by omega)])
  have hpart (b : List Byte) := addressed_cover q (WireFormat.parseEthernet frame) (b.take sizeofIbHeaders)
  obtain ⟨haddressed,hlength,hpad⟩ := hpart body
  obtain ⟨haddressed',hlength',hpad'⟩ := hpart body'
  rw [hheader] at haddressed' hlength' hpad'
  have hsealed : sealed body' = sealed body := by
    rw [Bool.eq_iff_iff, sealed_iff_residue hlong, sealed_iff_residue (hlens ▸ hlong), hcovered]
  rw [hethernet, ← parseTransport_take body, ← parseTransport_take body', ← haddressed, ← haddressed', ← hlength,
    ← hlength', ← hpad, ← hpad', hsealed, slice, slice, hrest]

/-- Bits that are left out of the checksum make no difference. -/
theorem uncovered_admitted (hlen : frame'.length = frame.length)
    (hethernet : ∀ t, addressed q (WireFormat.parseEthernet frame') t = addressed q (WireFormat.parseEthernet frame) t)
    (hnone : ∀ k, CoveredBit k → ¬ Altered frame frame' k) : admits q frame' = admits q frame := by
  have hlens : (frame'.drop sizeofEthHdr).length = (frame.drop sizeofEthHdr).length := by
    rw [List.length_drop, List.length_drop, hlen]
  by_cases hlong : sizeofIbHeaders ≤ (frame.drop sizeofEthHdr).length
  case neg =>
    have hover : overhead = sizeofIbHeaders+4 := rfl
    rw [admits, admits, if_neg (fun h => hlong (by omega)), if_neg (fun h => hlong (by omega))]
  refine admits_covered hlen hethernet (bitStream_injective ?_)
  apply List.ext_getElem?
  intro k
  by_contra hk
  obtain ⟨hcovered,haltered⟩ := (covered_ne_iff hlens hlong k).mp (Ne.symm hk)
  exact hnone k hcovered haltered

theorem admits_ethernet (h : admits q frame ≠ none) :
    (WireFormat.parseEthernet frame).dest = q.mac.toList ∧ (WireFormat.parseEthernet frame).etherType = 0x8915 := by
  rw [admits] at h
  split at h
  case isTrue hgood =>
    obtain ⟨hdest,htype,-⟩ := of_decide_eq_true hgood.2.2.1
    exact ⟨hdest,htype⟩
  case isFalse => exact absurd rfl h

/-- What a burst does to a frame on its way: its message arrives unharmed or not at all. -/
theorem burst_harmless (h : admits q frame ≠ none) (hburst : Burst frame frame') :
    admits q frame' = none ∨ admits q frame' = admits q frame := by
  by_cases hne : ∃ k, CoveredBit k ∧ Altered frame frame' k
  · exact .inl (burst_dropped h hburst hne q)
  · by_cases h' : admits q frame' = none
    · exact .inl h'
    · obtain ⟨hdest,htype⟩ := admits_ethernet h
      obtain ⟨hdest',htype'⟩ := admits_ethernet h'
      refine .inr (uncovered_admitted hburst.length ?_ (fun k hk haltered => hne ⟨k,hk,haltered⟩))
      intro t
      rw [addressed, addressed, hdest, htype, hdest', htype']

end IbverbPrototype.Roce
