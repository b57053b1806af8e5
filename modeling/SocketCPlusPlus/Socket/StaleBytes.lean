import SocketCPlusPlus.Socket.TCPConnection

/-! When a read depends only on the bytes received. The length check trusts the declared
size, the body parser its class's, so bytes of earlier reads may enter a packet. -/
namespace SocketCPlusPlus.Socket
open Foundation Packets

/-- Whatever else the receive buffer holds, these bytes at its front yield the same. -/
def DependsOnReceived (f : PacketMethodFactory Packet PacketClass UInt16) (bytes : List UInt8) :
    Prop :=
  ∀ data data' : Memory, data.load 0 bytes.length = bytes → data'.load 0 bytes.length = bytes →
    (∀ i, maxLength ≤ i → data i = data' i) →
    observe f data bytes.length = observe f data' bytes.length

/-- Every frame the length check accepts has the tags and the body of its class among the
bytes; a lone type byte must be no class's. -/
def SelfContained : Nat → List UInt8 → Prop
  | fuel+1, _ :: s₁ :: s₀ :: body => beValue [s₁, s₀] ≤ body.length →
      match body with
      | [] => False
      | [t] => ∀ c : PacketClass, type c ≠ t
      | t :: s :: _ => ∀ c, PacketClass.ofTags (t, s) = some c →
          c.size ≤ body.length ∧ SelfContained fuel (body.drop c.size)
  | _, _ => True

section Frames
variable {data : Memory} {offset : Nat}

private theorem header_of_load {h₀ s₁ s₀ : UInt8} {body : List UInt8}
    (h : data.load offset (h₀ :: s₁ :: s₀ :: body).length = h₀ :: s₁ :: s₀ :: body) :
    Serialize.wordAt data (offset + 1) 2 = beValue [s₁, s₀] ∧
      data.load (offset + 3) body.length = body := by
  simp only [List.length_cons, Store.load, List.cons.injEq] at h
  obtain ⟨-, h₁, h₀, hbody⟩ := h
  exact ⟨by simp only [Serialize.wordAt, Store.load, h₁, h₀], hbody⟩

private theorem fits_iff {h₀ s₁ s₀ : UInt8} {body : List UInt8}
    (h : data.load offset (h₀ :: s₁ :: s₀ :: body).length = h₀ :: s₁ :: s₀ :: body) :
    Fits data (offset + (h₀ :: s₁ :: s₀ :: body).length : Nat) offset ↔
      beValue [s₁, s₀] ≤ body.length := by
  rw [Fits, (header_of_load h).1]
  simp only [SizePacket.headerSize, List.length_cons]
  omega

private theorem tags_of_body {t s : UInt8} {rest : List UInt8}
    (h : data.load offset (t :: s :: rest).length = t :: s :: rest) :
    data offset = t ∧ data (offset + 1) = s := by
  simp only [List.length_cons, Store.load, List.cons.injEq] at h
  exact ⟨h.1, h.2.1⟩

private theorem classAt_of_body {t s : UInt8} {rest : List UInt8}
    (h : data.load (offset + 3) (t :: s :: rest).length = t :: s :: rest) :
    classAt data offset = PacketClass.ofTags (t, s) := by
  obtain ⟨ht, hs⟩ := tags_of_body h
  rw [classAt, ht, hs]

private theorem load_behind {body : List UInt8} {n : Nat} (hn : n ≤ body.length)
    (h : data.load (offset + 3) body.length = body) :
    data.load (offset + (SizePacket.headerSize + n)) (body.drop n).length = body.drop n := by
  obtain ⟨k, hk⟩ := Nat.exists_eq_add_of_le hn
  have hl := h
  rw [hk, Store.load_add] at hl
  have hd := congrArg (List.drop n) hl
  rw [List.drop_left' (Store.load_length ..), Nat.add_assoc] at hd
  rwa [List.length_drop, hk, Nat.add_sub_cancel_left]

private theorem rest_end {h₀ s₁ s₀ : UInt8} {body : List UInt8} {n : Nat} (hn : n ≤ body.length) :
    offset + (SizePacket.headerSize + n) + (body.drop n).length =
      offset + (h₀ :: s₁ :: s₀ :: body).length := by
  rw [List.length_drop]
  simp only [SizePacket.headerSize, List.length_cons]
  omega

private theorem parsed_of_body {data' : Memory} {c : PacketClass} {body : List UInt8}
    (h : data.load offset body.length = body) (h' : data'.load offset body.length = body)
    (hsize : c.size ≤ body.length) :
    Packet.parsed c data offset = Packet.parsed c data' offset := by
  apply Packet.parsed_congr
  intro i h₁ h₂
  obtain ⟨k, rfl⟩ := Nat.exists_eq_add_of_le h₁
  exact Store.load_inj (h.trans h'.symm) (by omega)

private theorem ofTags_none {t : UInt8} (h : ∀ c : PacketClass, type c ≠ t) (s : UInt8) :
    PacketClass.ofTags (t, s) = none := by
  cases hc : PacketClass.ofTags (t, s) with
  | none => rfl
  | some c => exact absurd (congrArg Prod.fst ((PacketClass.ofTags_iff _ c).mp hc)) (h c)

private theorem decode_short {bytes : List UInt8} {fuel : Nat} (hn : bytes.length < 3) :
    decode data (offset + bytes.length : Nat) (fuel + 1) offset = ([], .finished, offset) := by
  apply decode_done
  simp only [Fits, SizePacket.headerSize]
  omega

/-- Self-contained bytes decode alike in any memory. -/
theorem decode_of_selfContained {data data' : Memory} (fuel : Nat) (bytes : List UInt8)
    (offset : Nat) (hself : SelfContained fuel bytes)
    (h : data.load offset bytes.length = bytes) (h' : data'.load offset bytes.length = bytes) :
    decode data (offset + bytes.length : Nat) fuel offset =
      decode data' (offset + bytes.length : Nat) fuel offset := by
  induction fuel generalizing bytes offset with
  | zero => rfl
  | succ fuel ih =>
    rcases bytes with _ | ⟨h₀, _ | ⟨s₁, _ | ⟨s₀, body⟩⟩⟩
    · rw [decode_short (by simp), decode_short (by simp)]
    · rw [decode_short (by simp), decode_short (by simp)]
    · rw [decode_short (by simp), decode_short (by simp)]
    · have hbody := (header_of_load h).2
      have hbody' := (header_of_load h').2
      by_cases hfit : beValue [s₁, s₀] ≤ body.length
      · have hself := hself hfit
        have hin := (fits_iff h).mpr hfit
        have hin' := (fits_iff h').mpr hfit
        rcases body with _ | ⟨t, _ | ⟨s, rest⟩⟩
        · exact hself.elim
        · have ht : data (offset + 3) = t := List.cons.inj hbody |>.1
          have ht' : data' (offset + 3) = t := List.cons.inj hbody' |>.1
          rw [decode_unregistered hin (by rw [classAt, ht, ofTags_none hself]),
            decode_unregistered hin' (by rw [classAt, ht', ofTags_none hself])]
        · have htags := classAt_of_body hbody
          have htags' := classAt_of_body hbody'
          cases hc : PacketClass.ofTags (t, s) with
          | none =>
            rw [decode_unregistered hin (htags.trans hc), decode_unregistered hin' (htags'.trans hc)]
          | some c =>
            obtain ⟨hsize, hrest⟩ := hself c hc
            have hnext := ih _ (offset + (SizePacket.headerSize + c.size)) hrest
              (load_behind hsize hbody) (load_behind hsize hbody')
            rw [rest_end hsize] at hnext
            rw [decode_frame hin (htags.trans hc), decode_frame hin' (htags'.trans hc),
              parsed_of_body hbody hbody' hsize, hnext]
      · rw [decode_done (fun hin => hfit ((fits_iff h).mp hin)),
          decode_done (fun hin => hfit ((fits_iff h').mp hin))]

end Frames

/-! Bytes that are not self-contained. -/

section Leaks
variable {data data' : Memory} {length : Int} {fuel offset : Nat}

private theorem decode_ne_of_head {c c' : PacketClass}
    (h : Fits data length offset)
    (h' : Fits data' length offset)
    (hc : PacketClass.ofTags (data (offset + 3), data (offset + 4)) = some c)
    (hc' : PacketClass.ofTags (data' (offset + 3), data' (offset + 4)) = some c')
    (hne : Packet.parsed c data (offset + 3) ≠ Packet.parsed c' data' (offset + 3)) :
    decode data length (fuel + 1) offset ≠ decode data' length (fuel + 1) offset := by
  rw [decode_frame h hc, decode_frame h' hc']
  intro he
  exact hne (List.cons.inj (congrArg Prod.fst he)).1

private theorem parsed_ne_of_class {c c' : PacketClass} (hne : c ≠ c') :
    Packet.parsed c data offset ≠ Packet.parsed c' data' offset := by
  intro he
  have hcls := congrArg Packet.classOf he
  rw [Packet.classOf_parsed, Packet.classOf_parsed] at hcls
  exact hne hcls

private theorem store_pair (m : Memory) (a : Nat) (x y : UInt8) :
    m.store a [x, y] a = x ∧ m.store a [x, y] (a + 1) = y :=
  ⟨Store.store_get m a [x, y] (k := 0) (Nat.zero_lt_succ 1),
    Store.store_get m a [x, y] (k := 1) (Nat.one_lt_two)⟩

/-- A class type leads to two classes. -/
private theorem two_subTypes (c : PacketClass) : ∃ s s' d d', d ≠ d' ∧
    PacketClass.ofTags (type c, s) = some d ∧ PacketClass.ofTags (type c, s') = some d' := by
  cases c with
  | basePacket => exact ⟨0, 2, _, _, by decide, rfl, rfl⟩
  | connectionCommsPacket => exact ⟨0, 2, _, _, by decide, rfl, rfl⟩
  | positionPacket => exact ⟨1, 2, _, _, by decide, rfl, rfl⟩
  | movementPacket => exact ⟨1, 2, _, _, by decide, rfl, rfl⟩

private theorem front_load {m : Memory} {bytes : List UInt8} (x : UInt8)
    (h : m.load offset bytes.length = bytes) :
    (m.store (offset + bytes.length) [x, 2]).load offset bytes.length = bytes := by
  rw [Store.load_store_disjoint _ _ (Or.inl (Nat.le_refl _)), h]

/-- The memory behind decides what the front decodes to. -/
def Leaks (m : Memory) (fuel : Nat) (bytes : List UInt8) (offset : Nat) : Prop :=
  ∃ x y : UInt8,
    decode (m.store (offset + bytes.length) [x, 2]) (offset + bytes.length : Nat) fuel offset ≠
    decode (m.store (offset + bytes.length) [y, 2]) (offset + bytes.length : Nat) fuel offset

section Accepted
variable {m : Memory} {h₀ s₁ s₀ : UInt8} {body : List UInt8}

private theorem leaks_tags (h : m.load offset [h₀, s₁, s₀].length = [h₀, s₁, s₀])
    (hfit : beValue [s₁, s₀] ≤ 0) : Leaks m (fuel + 1) [h₀, s₁, s₀] offset := by
  have hin := fun x => (fits_iff (front_load x h)).mpr hfit
  have htags : ∀ x : UInt8, PacketClass.ofTags (m.store (offset + 3) [x, 2] (offset + 3),
      m.store (offset + 3) [x, 2] (offset + 4)) = PacketClass.ofTags (x, 2) := by
    intro x
    obtain ⟨hx, hy⟩ := store_pair m (offset + 3) x 2
    rw [hx, hy]
  have hcomms : PacketClass.ofTags (0, 2) = some .connectionCommsPacket := rfl
  have hmovement : PacketClass.ofTags (2, 2) = some .movementPacket := rfl
  exact ⟨0, 2, decode_ne_of_head (hin 0) (hin 2) ((htags 0).trans hcomms)
    ((htags 2).trans hmovement) (parsed_ne_of_class (by decide))⟩

private theorem leaks_subType (c : PacketClass)
    (h : m.load offset [h₀, s₁, s₀, type c].length = [h₀, s₁, s₀, type c])
    (hfit : beValue [s₁, s₀] ≤ 1) :
    Leaks m (fuel + 1) [h₀, s₁, s₀, type c] offset := by
  have hin := fun x => (fits_iff (front_load x h)).mpr hfit
  obtain ⟨x, y, d, d', hne, hd, hd'⟩ := two_subTypes c
  have htags : ∀ x : UInt8, PacketClass.ofTags (m.store (offset + 4) [x, 2] (offset + 3),
      m.store (offset + 4) [x, 2] (offset + 4)) = PacketClass.ofTags (type c, x) := by
    intro x
    have hbody := (header_of_load (front_load x h)).2
    have ht : m.store (offset + 4) [x, 2] (offset + 3) = type c := (List.cons.inj hbody).1
    rw [ht, (store_pair m (offset + 4) x 2).1]
  exact ⟨x, y, decode_ne_of_head (hin x) (hin y) ((htags x).trans hd) ((htags y).trans hd')
    (parsed_ne_of_class hne)⟩

private theorem leaks_body {c : PacketClass}
    (h : m.load offset (h₀ :: s₁ :: s₀ :: body).length = h₀ :: s₁ :: s₀ :: body)
    (hfit : beValue [s₁, s₀] ≤ body.length) (hsize : body.length < c.size)
    (htags : ∀ x : UInt8, PacketClass.ofTags
      (m.store (offset + (h₀ :: s₁ :: s₀ :: body).length) [x, 2] (offset + 3),
        m.store (offset + (h₀ :: s₁ :: s₀ :: body).length) [x, 2] (offset + 4)) = some c) :
    Leaks m (fuel + 1) (h₀ :: s₁ :: s₀ :: body) offset := by
  have hin := fun x => (fits_iff (front_load x h)).mpr hfit
  refine ⟨0, 1, decode_ne_of_head (hin 0) (hin 1) (htags 0) (htags 1) ?_⟩
  intro he
  have hbytes := congrArg Packet.body he
  rw [Packet.body_parsed, Packet.body_parsed] at hbytes
  have hcell := Store.load_inj hbytes hsize
  have hat : offset + 3 + body.length = offset + (h₀ :: s₁ :: s₀ :: body).length := by
    simp only [List.length_cons]
    omega
  rw [hat, (store_pair ..).1, (store_pair ..).1] at hcell
  exact absurd hcell (by decide)

end Accepted

/-- Bytes that are not self-contained leak. -/
theorem leaks_of_not_selfContained (m : Memory) (fuel : Nat) (bytes : List UInt8) (offset : Nat)
    (hself : ¬ SelfContained fuel bytes) (h : m.load offset bytes.length = bytes) :
    Leaks m fuel bytes offset := by
  induction fuel generalizing bytes offset with
  | zero => exact absurd trivial hself
  | succ fuel ih =>
    rcases bytes with _ | ⟨h₀, _ | ⟨s₁, _ | ⟨s₀, body⟩⟩⟩
    · exact absurd trivial hself
    · exact absurd trivial hself
    · exact absurd trivial hself
    · by_cases hfit : beValue [s₁, s₀] ≤ body.length
      · rcases body with _ | ⟨t, _ | ⟨s, rest⟩⟩
        · exact leaks_tags h hfit
        · obtain ⟨c, rfl⟩ : ∃ c : PacketClass, type c = t := by
            by_contra hno
            exact hself fun _ c ht => hno ⟨c, ht⟩
          exact leaks_subType c h hfit
        · obtain ⟨c, hc, hno⟩ : ∃ c : PacketClass, PacketClass.ofTags (t, s) = some c ∧
              ¬ (c.size ≤ (t :: s :: rest).length ∧
                SelfContained fuel ((t :: s :: rest).drop c.size)) := by
            by_contra hall
            refine hself fun _ c hc => ?_
            by_contra hno
            exact hall ⟨c, hc, hno⟩
          have htags : ∀ x : UInt8, classAt
              (m.store (offset + (h₀ :: s₁ :: s₀ :: t :: s :: rest).length) [x, 2]) offset =
              some c := fun x => (classAt_of_body (header_of_load (front_load x h)).2).trans hc
          by_cases hsize : c.size ≤ (t :: s :: rest).length
          · -- the frame is whole, so a later one leaks
            have hin := fun x => (fits_iff (front_load x h)).mpr hfit
            obtain ⟨x, y, hne⟩ := ih _ (offset + (SizePacket.headerSize + c.size))
              (fun hs => hno ⟨hsize, hs⟩) (load_behind hsize (header_of_load h).2)
            rw [rest_end hsize] at hne
            refine ⟨x, y, ?_⟩
            rw [decode_frame (hin x) (htags x), decode_frame (hin y) (htags y)]
            intro he
            obtain ⟨hps, hlast⟩ := Prod.mk.inj he
            exact hne (Prod.ext (List.cons.inj hps).2 hlast)
          · exact leaks_body h hfit (Nat.lt_of_not_le hsize) htags
      · exact absurd (fun hf => absurd hf hfit) hself

end Leaks

section Reads
variable {w : World Packet PacketClass UInt16} {bytes : List UInt8}

theorem depends_of_full (f : PacketMethodFactory Packet PacketClass UInt16)
    (hfull : bytes.length = maxLength) : DependsOnReceived f bytes := by
  intro data data' h h' hbeyond
  have hsame : data = data' := by
    funext i
    by_cases hi : i < bytes.length
    · have hcell := Store.load_inj (h.trans h'.symm) hi
      rwa [Nat.zero_add] at hcell
    · exact hbeyond i (by omega)
  rw [hsame]

theorem depends_of_selfContained (hw : w.Reachable PacketClass.all)
    (hfree : FreeFor w bytes.length) (hself : SelfContained (bytes.length + 1) bytes) :
    DependsOnReceived w.factory bytes := by
  intro data data' h h' _
  have hdecode := decode_of_selfContained (bytes.length + 1) bytes 0 hself h h'
  rw [Nat.zero_add] at hdecode
  rw [observe_eq_decode hw data _ hfree, observe_eq_decode hw data' _ hfree, hdecode]

/-- A partial read that is not self-contained shows a byte of the buffer behind it. -/
theorem not_depends_of_leak (hw : w.Reachable PacketClass.all) (hfree : FreeFor w bytes.length)
    (hlen : bytes.length < maxLength) (hself : ¬ SelfContained (bytes.length + 1) bytes) :
    ¬ DependsOnReceived w.factory bytes := by
  intro hdep
  let m : Memory := Store.store (fun _ => 0) 0 bytes
  have hm : m.load 0 bytes.length = bytes := Store.load_store_same ..
  obtain ⟨x, y, hne⟩ := leaks_of_not_selfContained m (bytes.length + 1) bytes 0 hself hm
  have hobs := hdep _ _ (front_load x hm) (front_load y hm) (by
    intro i hi
    by_cases hcell : i = bytes.length + 1
    · rw [hcell, Nat.zero_add, (store_pair ..).2, (store_pair ..).2]
    · have hout : i < 0 + bytes.length ∨ 0 + bytes.length + [x, 2].length ≤ i := by
        simp only [List.length_cons, List.length_nil]
        omega
      rw [Store.store_frame m [x, 2] hout, Store.store_frame m [y, 2] hout])
  rw [observe_eq_decode hw _ _ hfree, observe_eq_decode hw _ _ hfree] at hobs
  rw [Nat.zero_add] at hne
  exact hne (by rwa [Nat.zero_add] at hobs)

end Reads

/-- What a read yields depends only on the bytes received exactly if the read fills the
buffer or every frame it accepts lies within them. -/
theorem depends_on_received_iff (w : World Packet PacketClass UInt16)
    (hw : w.Reachable PacketClass.all) (bytes : List UInt8) (hlen : bytes.length ≤ 512)
    (hfree : FreeFor w bytes.length) :
    DependsOnReceived w.factory bytes ↔
      bytes.length = 512 ∨ SelfContained (bytes.length + 1) bytes := by
  constructor
  · intro hdep
    by_contra hno
    obtain ⟨hfull, hself⟩ := not_or.mp hno
    exact not_depends_of_leak hw hfree (Nat.lt_of_le_of_ne hlen hfull) hself hdep
  · intro h
    rcases h with hfull | hself
    · exact depends_of_full _ hfull
    · exact depends_of_selfContained hw hfree hself

/-- A whole base-class frame. -/
abbrev sampleRead : List UInt8 := [3, 0, 7, 0, 0, 51, 0, 0, 0, 0]

theorem sample_depends_on_received : DependsOnReceived initialWorld.factory sampleRead := by
  refine (depends_on_received_iff initialWorld ⟨_, _, _, .refl⟩ sampleRead (by decide)
    (initial_freeFor (by decide))).mpr (Or.inr ?_)
  intro _ c hc
  cases hc
  exact ⟨by decide, trivial⟩

/-- A frame that declares seven bytes and carries the movement tags takes the other
twenty-two from the buffer. -/
theorem short_movement_not_depends :
    ¬ DependsOnReceived initialWorld.factory [3, 0, 7, 2, 2, 51, 0, 0, 0, 0] := by
  refine not_depends_of_leak ⟨_, _, _, .refl⟩ (initial_freeFor (by decide)) (by decide) ?_
  intro hself
  exact absurd (hself (by decide) .movementPacket rfl).1 (by decide)

end SocketCPlusPlus.Socket
