import IbverbPrototype.Foundations.LossyChannel

/-! A sender, a lossy channel and a receiver. Whatever the items are, if the receiver takes out
of the k-th what belongs to k, the system is that of a sender that hands over bare numbers. -/
namespace IbverbPrototype.Foundations.Delivering
open EventSystem LossyChannel

variable {σ ε α ρ η δ : Type}

/-- A receiver, its own steps, and what it does with an item that arrives. -/
structure Receiver (ρ η δ : Type) where
  origin : ρ
  step : ρ → η → Option ρ
  hear : ρ → δ → Option ρ

structure Delivery (σ α ρ : Type) where
  link : Link σ α
  receiver : ρ

inductive DeliveryEvent (ε η : Type) where
  | link (e : LinkEvent ε)
  | receiver (e : η)

def DeliveryEvent.keeps (network : Carry → Bool) : DeliveryEvent ε η → Bool
  | .link e => e.keeps network
  | .receiver _ => true

/-- An item arrives if the receiver can take it; what it takes out of it is given by accept. -/
def deliveryStep (S : Sender σ ε α) (accept : α → Option δ) (R : Receiver ρ η δ) (d : Delivery σ α ρ) :
    DeliveryEvent ε η → Option (Delivery σ α ρ)
  | .link (.carry (.deliver i)) => do
    let m ← d.link.channel.inFlight[i]?
    let item ← d.link.channel.sent[m]?
    let data ← accept item
    let link ← linkStep S d.link (.carry (.deliver i))
    let receiver ← R.hear d.receiver data
    some ⟨link, receiver⟩
  | .link e => (linkStep S d.link e).map (fun link => { d with link := link })
  | .receiver e => (R.step d.receiver e).map (fun receiver => { d with receiver := receiver })

def startDelivery (S : Sender σ ε α) (R : Receiver ρ η δ) : Delivery σ α ρ := ⟨S.link, R.origin⟩

/-- The system over a kind of network. -/
def deliveryOver (network : Carry → Bool) (S : Sender σ ε α) (accept : α → Option δ) (R : Receiver ρ η δ) :
    Delivery σ α ρ → DeliveryEvent ε η → Option (Delivery σ α ρ) :=
  restrict (DeliveryEvent.keeps network) (deliveryStep S accept R)

/-- The states that arise over a kind of network. -/
def Arises (network : Carry → Bool) (S : Sender σ ε α) (accept : α → Option δ) (R : Receiver ρ η δ)
    (d : Delivery σ α ρ) : Prop := Reachable (deliveryOver network S accept R) (startDelivery S R) d

variable {network : Carry → Bool} {S : Sender σ ε α} {accept : α → Option δ} {R : Receiver ρ η δ}
variable {d d' : Delivery σ α ρ}

inductive DeliverySteps (network : Carry → Bool) (S : Sender σ ε α) (accept : α → Option δ) (R : Receiver ρ η δ)
    (d : Delivery σ α ρ) : DeliveryEvent ε η → Delivery σ α ρ → Prop where
  | sent (e : ε) (s : σ) (a : α) (hs : S.step d.link.sender e = some (s, some a)) :
      DeliverySteps network S accept R d (.link (.sender e)) ⟨⟨s, d.link.channel.send a⟩, d.receiver⟩
  | quiet (e : ε) (s : σ) (hs : S.step d.link.sender e = some (s, none)) :
      DeliverySteps network S accept R d (.link (.sender e)) ⟨⟨s, d.link.channel⟩, d.receiver⟩
  | delivered (i m : Nat) (item : α) (data : δ) (receiver : ρ) (hnetwork : network (.deliver i) = true)
      (hm : d.link.channel.inFlight[i]? = some m) (hitem : d.link.channel.sent[m]? = some item)
      (hdata : accept item = some data) (hreceiver : R.hear d.receiver data = some receiver) :
      DeliverySteps network S accept R d (.link (.carry (.deliver i)))
        ⟨⟨d.link.sender, { d.link.channel with
            inFlight := d.link.channel.inFlight.eraseIdx i, arrived := d.link.channel.arrived ++ [m] }⟩, receiver⟩
  | carried (w : Carry) (channel : Channel α) (hnetwork : network w = true) (hw : ∀ i, w ≠ .deliver i)
      (hchannel : d.link.channel.carry w = some channel) :
      DeliverySteps network S accept R d (.link (.carry w)) ⟨⟨d.link.sender, channel⟩, d.receiver⟩
  | received (e : η) (receiver : ρ) (hreceiver : R.step d.receiver e = some receiver) :
      DeliverySteps network S accept R d (.receiver e) ⟨d.link, receiver⟩

theorem delivery_steps {e : DeliveryEvent ε η} (h : deliveryOver network S accept R d e = some d') :
    DeliverySteps network S accept R d e d' := by
  obtain ⟨hkeeps,hstep⟩ := restrict_eq_some.mp h
  cases e with
  | receiver e =>
    obtain ⟨receiver,hreceiver,rfl⟩ := Option.map_eq_some_iff.mp hstep
    exact .received e receiver hreceiver
  | link e =>
    cases e with
    | sender e =>
      obtain ⟨link,hlink,rfl⟩ := Option.map_eq_some_iff.mp hstep
      obtain ⟨⟨s,out⟩,hs,rfl⟩ := Option.map_eq_some_iff.mp hlink
      cases out with
      | none => exact .quiet e s hs
      | some a => exact .sent e s a hs
    | carry w =>
      cases w with
      | deliver i =>
        simp only [deliveryStep, Option.bind_eq_bind, Option.bind_eq_some_iff] at hstep
        obtain ⟨m,hm,item,hitem,data,hdata,link,hlink,receiver,hreceiver,hd⟩ := hstep
        obtain rfl := Option.some_inj.mp hd
        obtain ⟨channel,hchannel,rfl⟩ := Option.map_eq_some_iff.mp hlink
        obtain ⟨m',hm',rfl⟩ := Option.map_eq_some_iff.mp hchannel
        obtain rfl := Option.some_inj.mp (hm.symm.trans hm')
        exact .delivered i m item data receiver hkeeps hm hitem hdata hreceiver
      | lose i | double i =>
        obtain ⟨link,hlink,rfl⟩ := Option.map_eq_some_iff.mp hstep
        obtain ⟨channel,hchannel,rfl⟩ := Option.map_eq_some_iff.mp hlink
        exact .carried _ channel hkeeps (by rintro _ ⟨⟩) hchannel

/-- The inversion loses nothing. -/
theorem DeliverySteps.step {e : DeliveryEvent ε η} (h : DeliverySteps network S accept R d e d') :
    deliveryOver network S accept R d e = some d' := by
  refine restrict_eq_some.mpr ?_
  cases h with
  | sent e s a hs | quiet e s hs =>
    refine ⟨rfl,?_⟩
    simp only [deliveryStep, linkStep, hs, Option.map_some]
    rfl
  | delivered i m item data receiver hnetwork hm hitem hdata hreceiver =>
    refine ⟨hnetwork,?_⟩
    simp only [deliveryStep, linkStep, Channel.carry, hm, hitem, hdata, hreceiver, Option.bind_eq_bind,
      Option.bind_some, Option.map_some]
  | carried w channel hnetwork hw hchannel =>
    refine ⟨hnetwork,?_⟩
    cases w with
    | deliver i => exact absurd rfl (hw i)
    | lose i | double i =>
      simp only [deliveryStep, linkStep, hchannel, Option.map_some]
  | received e receiver hreceiver =>
    refine ⟨rfl,?_⟩
    simp only [deliveryStep, hreceiver, Option.map_some]

/-- The sender and its channel take part in a delivery as they would without the receiver. -/
theorem delivery_link (h : Arises network S accept R d) :
    Reachable (restrict (LinkEvent.keeps network) (linkStep S)) S.link d.link := by
  refine Reachable.view (f := Delivery.link) ?_ h
  intro d d' e _ hd
  cases delivery_steps hd with
  | sent e s a hs =>
    refine .inr ⟨.sender e,restrict_eq_some.mpr ⟨rfl,?_⟩⟩
    simp only [linkStep, hs, Option.map_some]
    rfl
  | quiet e s hs =>
    refine .inr ⟨.sender e,restrict_eq_some.mpr ⟨rfl,?_⟩⟩
    simp only [linkStep, hs, Option.map_some]
    rfl
  | delivered i m item data receiver hnetwork hm =>
    refine .inr ⟨.carry (.deliver i),restrict_eq_some.mpr ⟨hnetwork,?_⟩⟩
    simp only [linkStep, Channel.carry, hm, Option.map_some]
  | carried w channel hnetwork hw hchannel =>
    refine .inr ⟨.carry w,restrict_eq_some.mpr ⟨hnetwork,?_⟩⟩
    simp only [linkStep, hchannel, Option.map_some]
  | received => exact .inl rfl

/-- The sender that hands over its numbers. -/
def numbering : Sender Nat Unit Nat := ⟨0, fun k _ => some (k+1, some k)⟩

/-- Every item replaced by its number. -/
def numberedChannel (c : Channel α) : Channel Nat := { c with sent := List.range c.sent.length }

def Delivery.numbered (d : Delivery σ α ρ) : Delivery Nat Nat ρ :=
  ⟨⟨d.link.channel.sent.length, numberedChannel d.link.channel⟩, d.receiver⟩

theorem numberedChannel_send (c : Channel α) (a : α) :
    numberedChannel (c.send a) = (numberedChannel c).send c.sent.length := by
  simp [numberedChannel, Channel.send, List.range_succ]

theorem numberedChannel_carry (c : Channel α) (w : Carry) :
    (numberedChannel c).carry w = (c.carry w).map numberedChannel := by
  cases w with
  | deliver i | lose i | double i =>
    simp only [Channel.carry, numberedChannel, Option.map_map]
    rfl

theorem sent_numbered (s : σ) (c : Channel α) (a : α) (receiver : ρ) :
    (⟨⟨s, c.send a⟩, receiver⟩ : Delivery σ α ρ).numbered =
      ⟨⟨c.sent.length+1, (numberedChannel c).send c.sent.length⟩, receiver⟩ := by
  rw [Delivery.numbered, numberedChannel_send]
  simp [Channel.send]

theorem carried_numbered {c channel : Channel α} {w : Carry} (h : c.carry w = some channel) (s : σ) (receiver : ρ) :
    (⟨⟨s, channel⟩, receiver⟩ : Delivery σ α ρ).numbered =
      ⟨⟨c.sent.length, numberedChannel channel⟩, receiver⟩ := by
  rw [Delivery.numbered, carry_sent h]

variable {I : Nat → σ → Prop} {content : Nat → δ}

/-- Items whose content goes by their number are as good as the numbers. -/
theorem delivery_numbered (hS : S.Keeps I (fun k item => accept item = some (content k)))
    (h : Arises network S accept R d) :
    Arises network numbering (fun k => some (content k)) R d.numbered := by
  refine Reachable.view (f := Delivery.numbered) ?_ h
  intro d d' e hd hd'
  cases delivery_steps hd' with
  | quiet => exact .inl rfl
  | sent e s a =>
    rw [sent_numbered]
    exact .inr ⟨.link (.sender ()),(DeliverySteps.sent () _ _ rfl).step⟩
  | delivered i m item data receiver hnetwork hm hitem hdata hreceiver =>
    have hcontent := (hS.link (delivery_link hd).unrestricted).2 m item hitem
    obtain rfl := Option.some_inj.mp (hdata.symm.trans hcontent)
    have hsent : (List.range d.link.channel.sent.length)[m]? = some m :=
      List.getElem?_range (List.getElem?_eq_some_iff.mp hitem).1
    exact .inr ⟨_,(DeliverySteps.delivered i m m (content m) receiver hnetwork hm hsent rfl hreceiver).step⟩
  | carried w channel hnetwork hw hchannel =>
    rw [carried_numbered hchannel]
    have hcarry : (numberedChannel d.link.channel).carry w = some (numberedChannel channel) := by
      rw [numberedChannel_carry, hchannel, Option.map_some]
    exact .inr ⟨_,(DeliverySteps.carried w _ hnetwork hw hcarry).step⟩
  | received e receiver hreceiver =>
    exact .inr ⟨_,(DeliverySteps.received (d := d.numbered) e receiver hreceiver).step⟩

/-- A sender that can always go on does with its items whatever bare numbers can do. -/
theorem delivery_realised (hS : S.Keeps I (fun k item => accept item = some (content k)))
    (hgoesOn : ∀ k s, I k s → ∃ e t a, S.step s e = some (t, some a)) {x : Delivery Nat Nat ρ}
    (h : Arises network numbering (fun k => some (content k)) R x) :
    ∃ d, Arises network S accept R d ∧ d.numbered = x := by
  induction h with
  | start => exact ⟨_,.start,rfl⟩
  | @next x x' e _ hx' ih =>
    obtain ⟨d,hd,rfl⟩ := ih
    obtain ⟨hI,hP⟩ := hS.link (delivery_link hd).unrestricted
    cases delivery_steps hx' with
    | quiet e s hs => cases hs
    | sent e s a hs =>
      obtain ⟨e',t,item,ht⟩ := hgoesOn _ _ hI
      obtain ⟨rfl,ha⟩ := Prod.mk.inj (Option.some_inj.mp hs)
      obtain rfl := Option.some_inj.mp ha
      exact ⟨_,hd.next (DeliverySteps.sent e' t item ht).step,sent_numbered _ _ _ _⟩
    | delivered i m k data receiver hnetwork hm hitem hdata hreceiver =>
      obtain ⟨hlt,hk⟩ := List.getElem?_eq_some_iff.mp hitem
      obtain rfl : m = k := by
        rw [← hk]
        exact (List.getElem_range _).symm
      have hsent : m < d.link.channel.sent.length := by
        rw [← List.length_range (n := d.link.channel.sent.length)]
        exact hlt
      have hcontent := hP m _ (List.getElem?_eq_getElem hsent)
      rw [Option.some_inj.mp hdata] at hcontent
      have hstep := DeliverySteps.delivered (d := d) (S := S) i m _ data receiver hnetwork hm
        (List.getElem?_eq_getElem hsent) hcontent hreceiver
      exact ⟨_,hd.next hstep.step,rfl⟩
    | carried w channel hnetwork hw hchannel =>
      obtain ⟨channel',hcarry,rfl⟩ := Option.map_eq_some_iff.mp ((numberedChannel_carry _ w).symm.trans hchannel)
      exact ⟨_,hd.next (DeliverySteps.carried w channel' hnetwork hw hcarry).step,carried_numbered hcarry _ _⟩
    | received e receiver hreceiver =>
      exact ⟨_,hd.next (DeliverySteps.received (d := d) e receiver hreceiver).step,rfl⟩

/-- Two senders whose items have the same contents, and which always can go on, cannot be told
apart by anything but their items. -/
theorem interchangeable {σ' ε' α' : Type} {S' : Sender σ' ε' α'} {accept' : α' → Option δ} {I' : Nat → σ' → Prop}
    (hS : S.Keeps I (fun k item => accept item = some (content k)))
    (hgoesOn : ∀ k s, I k s → ∃ e t a, S.step s e = some (t, some a))
    (hS' : S'.Keeps I' (fun k item => accept' item = some (content k)))
    (hgoesOn' : ∀ k s, I' k s → ∃ e t a, S'.step s e = some (t, some a)) (x : Delivery Nat Nat ρ) :
    (∃ d, Arises network S accept R d ∧ d.numbered = x) ↔ ∃ d, Arises network S' accept' R d ∧ d.numbered = x := by
  constructor
  · rintro ⟨d,hd,rfl⟩
    exact delivery_realised hS' hgoesOn' (delivery_numbered hS hd)
  · rintro ⟨d,hd,rfl⟩
    exact delivery_realised hS hgoesOn (delivery_numbered hS' hd)

end IbverbPrototype.Foundations.Delivering
