import IbverbPrototype.Foundations.Delivering

/-! Progress of a delivery: a sender that can always hand over one more item and a receiver that
can always take one more bring everything through that the channel has not lost yet. -/
namespace IbverbPrototype.Foundations.Delivering
open EventSystem LossyChannel

variable {σ ε α ρ η δ : Type} {network : Carry → Bool} {S : Sender σ ε α} {accept : α → Option δ}
variable {R : Receiver ρ η δ} {d : Delivery σ α ρ}

/-- The steps in which a sender hands over nothing. -/
def quietStep (S : Sender σ ε α) (s : σ) (e : ε) : Option σ :=
  (S.step s e).bind (fun next => if next.2.isNone then some next.1 else none)

theorem quietStep_eq_some {s t : σ} {e : ε} : quietStep S s e = some t ↔ S.step s e = some (t, none) := by
  rw [quietStep, Option.bind_eq_some_iff]
  constructor
  · rintro ⟨⟨s',out⟩,hstep,hnext⟩
    cases out with
    | some a => cases hnext
    | none =>
      obtain rfl := Option.some_inj.mp hnext
      exact hstep
  · intro hstep
    exact ⟨_,hstep,rfl⟩

/-- Steps that only the sender sees. -/
theorem sender_reaches {s : σ} (h : Reachable (quietStep S) d.link.sender s) :
    Reachable (deliveryOver network S accept R) d ⟨⟨s, d.link.channel⟩, d.receiver⟩ := by
  induction h with
  | start => exact .start
  | @next s t e _ ht ih =>
    exact ih.next (DeliverySteps.quiet (d := ⟨⟨s, d.link.channel⟩, d.receiver⟩) e t (quietStep_eq_some.mp ht)).step

/-- Steps that only the receiver sees. -/
theorem receiver_reaches {r : ρ} (h : Reachable R.step d.receiver r) :
    Reachable (deliveryOver network S accept R) d ⟨d.link, r⟩ := by
  induction h with
  | start => exact .start
  | @next r t e _ ht ih => exact ih.next (DeliverySteps.received (d := ⟨d.link, r⟩) e t ht).step

/-- As many more items can be sent as one likes, without the receiver or a loss. -/
theorem exists_sent (network : Carry → Bool) (accept : α → Option δ) (R : Receiver ρ η δ) {d : Delivery σ α ρ}
    {K : σ → Prop}
    (hsends : ∀ s, K s → ∃ s' e t a, Reachable (quietStep S) s s' ∧ S.step s' e = some (t, some a) ∧ K t)
    (hd : K d.link.sender) (k : Nat) :
    ∃ d', Reachable (deliveryOver network S accept R) d d' ∧ K d'.link.sender ∧ d'.receiver = d.receiver ∧
      d'.link.channel.lost = d.link.channel.lost ∧ k ≤ d'.link.channel.sent.length := by
  induction k with
  | zero => exact ⟨d,.start,hd,rfl,rfl,Nat.zero_le _⟩
  | succ k ih =>
    obtain ⟨d',hreach,hK,hreceiver,hlost,hk⟩ := ih
    obtain ⟨s,e,t,a,hquiet,hstep,hT⟩ := hsends _ hK
    have hready : Reachable (deliveryOver network S accept R) d' ⟨⟨s, d'.link.channel⟩, d'.receiver⟩ :=
      sender_reaches hquiet
    have hsent := hready.next (DeliverySteps.sent e t a hstep).step
    refine ⟨_,hreach.trans hsent,hT,hreceiver,hlost,?_⟩
    simpa [Channel.send] using hk

/-- Items only arrived, and the receiver took its steps. -/
structure OnlyArrivals (d d' : Delivery σ α ρ) : Prop where
  sender : d'.link.sender = d.link.sender
  sent : d'.link.channel.sent = d.link.channel.sent
  lost : d'.link.channel.lost = d.link.channel.lost

variable {J : ρ → Prop} {I : Nat → σ → Prop} {content : Nat → δ}

/-- The oldest item under way can be delivered next. -/
theorem exists_next_delivered (hS : S.Keeps I (fun k item => accept item = some (content k)))
    (hnetwork : network (.deliver 0) = true)
    (hears : ∀ r data, J r → ∃ r' r'', Reachable R.step r r' ∧ R.hear r' data = some r'' ∧ J r'')
    (h : Arises network S accept R d) (hd : J d.receiver) (hflight : 0 < d.link.channel.inFlight.length) :
    ∃ d', Reachable (deliveryOver network S accept R) d d' ∧ J d'.receiver ∧ OnlyArrivals d d' ∧
      d'.link.channel.inFlight.length < d.link.channel.inFlight.length := by
  obtain ⟨m,rest,hrest⟩ := List.exists_cons_of_length_pos hflight
  have hchannel := (link_channel (delivery_link h)).unrestricted
  have hm : m < d.link.channel.sent.length := reachable_authentic hchannel m (by simp [Channel.numbers, hrest])
  have hitem := List.getElem?_eq_getElem hm
  have hcontent := (hS.link (delivery_link h).unrestricted).2 m _ hitem
  have hget : d.link.channel.inFlight[0]? = some m := by rw [hrest]; rfl
  obtain ⟨r,r',hquiet,hhear,hJ⟩ := hears _ (content m) hd
  have hready : Reachable (deliveryOver network S accept R) d ⟨d.link, r⟩ := receiver_reaches hquiet
  have hdelivered := hready.next
    (DeliverySteps.delivered (d := ⟨d.link, r⟩) 0 m _ _ r' hnetwork hget hitem hcontent hhear).step
  refine ⟨_,hdelivered,hJ,⟨rfl,rfl,rfl⟩,?_⟩
  simp [hrest]

/-- All that is under way can be delivered, none of it lost. -/
theorem exists_drained (hS : S.Keeps I (fun k item => accept item = some (content k)))
    (hnetwork : network (.deliver 0) = true)
    (hears : ∀ r data, J r → ∃ r' r'', Reachable R.step r r' ∧ R.hear r' data = some r'' ∧ J r'')
    (h : Arises network S accept R d) (hd : J d.receiver) :
    ∃ d', Reachable (deliveryOver network S accept R) d d' ∧ J d'.receiver ∧ OnlyArrivals d d' ∧
      d'.link.channel.inFlight = [] := by
  have hlower : ∀ x, (Arises network S accept R x ∧ J x.receiver ∧ OnlyArrivals d x) →
      0 < x.link.channel.inFlight.length → ∃ y, Reachable (deliveryOver network S accept R) x y ∧
        (Arises network S accept R y ∧ J y.receiver ∧ OnlyArrivals d y) ∧
        y.link.channel.inFlight.length < x.link.channel.inFlight.length := by
    rintro x ⟨hx,hJ,hsender,hsent,hlost⟩ hpos
    obtain ⟨y,hy,hJ',hsame,hlt⟩ := exists_next_delivered hS hnetwork hears hx hJ hpos
    exact ⟨y,hy,⟨hx.trans hy,hJ',hsame.sender.trans hsender,hsame.sent.trans hsent,hsame.lost.trans hlost⟩,hlt⟩
  obtain ⟨d',hreach,⟨-,hJ,hsame⟩,hzero⟩ := exists_rank_zero hlower ⟨h,hd,rfl,rfl,rfl⟩
  exact ⟨d',hreach,hJ,hsame,List.length_eq_zero_iff.mp hzero⟩

/-- From every state in which sender and receiver can go on, more items can be sent and all that
is under way delivered without a further loss. -/
theorem exists_delivered {K : σ → Prop} (hS : S.Keeps I (fun k item => accept item = some (content k)))
    (hnetwork : network (.deliver 0) = true)
    (hsends : ∀ s, K s → ∃ s' e t a, Reachable (quietStep S) s s' ∧ S.step s' e = some (t, some a) ∧ K t)
    (hears : ∀ r data, J r → ∃ r' r'', Reachable R.step r r' ∧ R.hear r' data = some r'' ∧ J r'')
    (h : Arises network S accept R d) (hK : K d.link.sender) (hJ : J d.receiver) (k : Nat) :
    ∃ d', Reachable (deliveryOver network S accept R) d d' ∧ K d'.link.sender ∧ J d'.receiver ∧
      k ≤ d'.link.channel.sent.length ∧ d'.link.channel.lost = d.link.channel.lost ∧
      d'.link.channel.inFlight = [] := by
  obtain ⟨x,hx,hK',hreceiver,hlost,hk⟩ := exists_sent network accept R hsends hK k
  rw [← hreceiver] at hJ
  obtain ⟨d',hd',hJ',hsame,hflight⟩ := exists_drained hS hnetwork hears (h.trans hx) hJ
  rw [← hsame.sender] at hK'
  rw [← hsame.sent] at hk
  exact ⟨d',hx.trans hd',hK',hJ',hk,hsame.lost.trans hlost,hflight⟩

end IbverbPrototype.Foundations.Delivering
