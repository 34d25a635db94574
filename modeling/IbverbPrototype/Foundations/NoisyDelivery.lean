import IbverbPrototype.Foundations.Delivering

/-! A network that may also alter what it carries. If an altered item is refused, or taken for
what it was, the system does no more than over a network that loses items. -/
namespace IbverbPrototype.Foundations.NoisyDelivery
open EventSystem LossyChannel Delivering

variable {σ ε α ρ η δ : Type}

/-- A copy of an item under way: its number, and what it was altered to. -/
structure Copy (α : Type) where
  number : Nat
  altered : Option α

/-- A sender, the network and a receiver; arrived are the numbers of what the receiver took. -/
structure Noisy (σ α ρ : Type) where
  sender : σ
  sent : List α
  inFlight : List (Copy α)
  arrived : List Nat
  receiver : ρ

inductive NoisyEvent (ε η α : Type) where
  | sender (e : ε)
  | receiver (e : η)
  | deliver (i : Nat)
  | lose (i : Nat)
  | double (i : Nat)
  | alter (i : Nat) (a : α)

/-- What is carried as a copy. -/
def Noisy.item (d : Noisy σ α ρ) (c : Copy α) : Option α := c.altered.or d.sent[c.number]?

def Noisy.handOver (d : Noisy σ α ρ) (s : σ) : Option α → Noisy σ α ρ
  | none => { d with sender := s }
  | some a => { d with sender := s, sent := d.sent ++ [a], inFlight := d.inFlight ++ [⟨d.sent.length, none⟩] }

/-- A copy is altered once at most, by the noise the network knows; what is not accepted is
dropped where it arrives. -/
def noisyStep (noise : α → α → Prop) [DecidableRel noise] (S : Sender σ ε α) (accept : α → Option δ)
    (R : Receiver ρ η δ) (d : Noisy σ α ρ) : NoisyEvent ε η α → Option (Noisy σ α ρ)
  | .sender e => (S.step d.sender e).map (fun next => d.handOver next.1 next.2)
  | .receiver e => (R.step d.receiver e).map (fun receiver => { d with receiver := receiver })
  | .deliver i => do
    let c ← d.inFlight[i]?
    let item ← d.item c
    match accept item with
    | none => some { d with inFlight := d.inFlight.eraseIdx i }
    | some data =>
      let receiver ← R.hear d.receiver data
      some { d with inFlight := d.inFlight.eraseIdx i, arrived := d.arrived ++ [c.number], receiver := receiver }
  | .lose i => d.inFlight[i]?.map (fun _ => { d with inFlight := d.inFlight.eraseIdx i })
  | .double i => d.inFlight[i]?.map (fun c => { d with inFlight := d.inFlight ++ [c] })
  | .alter i a => do
    let c ← d.inFlight[i]?
    let item ← d.sent[c.number]?
    if c.altered.isNone ∧ noise item a then some { d with inFlight := d.inFlight.set i ⟨c.number, some a⟩ } else none

def startNoisy (S : Sender σ ε α) (R : Receiver ρ η δ) : Noisy σ α ρ := ⟨S.origin, [], [], [], R.origin⟩

/-- The states that arise over a noisy network. -/
def ArisesNoisy (noise : α → α → Prop) [DecidableRel noise] (S : Sender σ ε α) (accept : α → Option δ)
    (R : Receiver ρ η δ) (d : Noisy σ α ρ) : Prop := Reachable (noisyStep noise S accept R) (startNoisy S R) d

/-- Networks that lose, reorder and double. -/
def anyNetwork : Carry → Bool := fun _ => true

variable {noise : α → α → Prop} [DecidableRel noise] {S : Sender σ ε α} {accept : α → Option δ} {R : Receiver ρ η δ}
variable {d d' : Noisy σ α ρ}

inductive NoisySteps (noise : α → α → Prop) (S : Sender σ ε α) (accept : α → Option δ) (R : Receiver ρ η δ)
    (d : Noisy σ α ρ) : Noisy σ α ρ → Prop where
  | sender (e : ε) (s : σ) (out : Option α) (hs : S.step d.sender e = some (s, out)) :
      NoisySteps noise S accept R d (d.handOver s out)
  | received (e : η) (receiver : ρ) (hreceiver : R.step d.receiver e = some receiver) :
      NoisySteps noise S accept R d { d with receiver := receiver }
  | dropped (i : Nat) (c : Copy α) (item : α) (hc : d.inFlight[i]? = some c) (hitem : d.item c = some item)
      (hdata : accept item = none) : NoisySteps noise S accept R d { d with inFlight := d.inFlight.eraseIdx i }
  | delivered (i : Nat) (c : Copy α) (item : α) (data : δ) (receiver : ρ) (hc : d.inFlight[i]? = some c)
      (hitem : d.item c = some item) (hdata : accept item = some data)
      (hreceiver : R.hear d.receiver data = some receiver) :
      NoisySteps noise S accept R d
        { d with inFlight := d.inFlight.eraseIdx i, arrived := d.arrived ++ [c.number], receiver := receiver }
  | lost (i : Nat) (c : Copy α) (hc : d.inFlight[i]? = some c) :
      NoisySteps noise S accept R d { d with inFlight := d.inFlight.eraseIdx i }
  | doubled (i : Nat) (c : Copy α) (hc : d.inFlight[i]? = some c) :
      NoisySteps noise S accept R d { d with inFlight := d.inFlight ++ [c] }
  | altered (i m : Nat) (item a : α) (hc : d.inFlight[i]? = some ⟨m, none⟩) (hitem : d.sent[m]? = some item)
      (hnoise : noise item a) : NoisySteps noise S accept R d { d with inFlight := d.inFlight.set i ⟨m, some a⟩ }

theorem noisy_steps {e : NoisyEvent ε η α} (h : noisyStep noise S accept R d e = some d') :
    NoisySteps noise S accept R d d' := by
  cases e with
  | sender e =>
    obtain ⟨⟨s,out⟩,hs,rfl⟩ := Option.map_eq_some_iff.mp h
    exact .sender e s out hs
  | receiver e =>
    obtain ⟨receiver,hreceiver,rfl⟩ := Option.map_eq_some_iff.mp h
    exact .received e receiver hreceiver
  | deliver i =>
    simp only [noisyStep, Option.bind_eq_bind, Option.bind_eq_some_iff] at h
    obtain ⟨c,hc,item,hitem,h⟩ := h
    split at h
    case h_1 hdata =>
      obtain rfl := Option.some_inj.mp h
      exact .dropped i c item hc hitem hdata
    case h_2 data hdata =>
      obtain ⟨receiver,hreceiver,h⟩ := Option.bind_eq_some_iff.mp h
      obtain rfl := Option.some_inj.mp h
      exact .delivered i c item data receiver hc hitem hdata hreceiver
  | lose i =>
    obtain ⟨c,hc,rfl⟩ := Option.map_eq_some_iff.mp h
    exact .lost i c hc
  | double i =>
    obtain ⟨c,hc,rfl⟩ := Option.map_eq_some_iff.mp h
    exact .doubled i c hc
  | alter i a =>
    simp only [noisyStep, Option.bind_eq_bind, Option.bind_eq_some_iff] at h
    obtain ⟨⟨m,altered⟩,hc,item,hitem,h⟩ := h
    split at h
    case isTrue hnoise =>
      obtain rfl := Option.isNone_iff_eq_none.mp hnoise.1
      obtain rfl := Option.some_inj.mp h
      exact .altered i m item a hc hitem hnoise.2
    case isFalse => cases h

theorem noisyStep_alter {i m : Nat} {item a : α} (hc : d.inFlight[i]? = some ⟨m, none⟩)
    (hitem : d.sent[m]? = some item) (hnoise : noise item a) :
    noisyStep noise S accept R d (.alter i a) = some { d with inFlight := d.inFlight.set i ⟨m, some a⟩ } := by
  simp only [noisyStep, hc, hitem, Option.bind_eq_bind, Option.bind_some]
  exact if_pos ⟨rfl,hnoise⟩

/-- Where an entry stands among those that are kept, and what becomes of them when it goes or is
replaced. -/
structure Place {β : Type} (f : α → Option β) (l : List α) (i : Nat) (c : α) (j : Nat) : Prop where
  kept : ∀ m, f c = some m → (l.filterMap f)[j]? = some m
  erased : (l.eraseIdx i).filterMap f = if (f c).isSome then (l.filterMap f).eraseIdx j else l.filterMap f
  same : ∀ a, f a = f c → (l.set i a).filterMap f = l.filterMap f
  gone : ∀ a, f a = none → (l.set i a).filterMap f = (l.eraseIdx i).filterMap f

theorem exists_place {β : Type} (f : α → Option β) {l : List α} {i : Nat} {c : α} (h : l[i]? = some c) :
    ∃ j, Place f l i c j := by
  obtain ⟨hi,rfl⟩ := List.getElem?_eq_some_iff.mp h
  have hcons (a : α) : (l.take i ++ a::l.drop (i+1)).filterMap f =
      (l.take i).filterMap f ++ (f a).toList ++ (l.drop (i+1)).filterMap f := by
    rw [List.filterMap_append, List.filterMap_cons, List.append_assoc]
    cases f a <;> rfl
  have hwhole : l.filterMap f = (l.take i).filterMap f ++ (f l[i]).toList ++ (l.drop (i+1)).filterMap f := by
    rw [← hcons, ← List.drop_eq_getElem_cons hi, List.take_append_drop]
  have herased : (l.eraseIdx i).filterMap f = (l.take i).filterMap f ++ (l.drop (i+1)).filterMap f := by
    rw [List.eraseIdx_eq_take_drop_succ, List.filterMap_append]
  have hset (a : α) : l.set i a = l.take i ++ a::l.drop (i+1) := by
    rw [List.set_eq_take_append_cons_drop, if_pos hi]
  refine ⟨((l.take i).filterMap f).length,?_,?_,?_,?_⟩
  · intro m hm
    rw [hwhole, hm]
    simp
  · rw [herased, hwhole]
    cases f l[i] with
    | none => simp
    | some m => simp [List.eraseIdx_append_of_length_le]
  · intro a ha
    rw [hset, hcons, ha, ← hwhole]
  · intro a ha
    rw [hset, hcons, ha, herased, Option.toList_none, List.append_nil]

/-- The number of a copy that is still taken for an item. -/
def Copy.sound (accept : α → Option δ) : Copy α → Option Nat
  | ⟨m, none⟩ => some m
  | ⟨m, some a⟩ => (accept a).map (fun _ => m)

/-- Every altered copy is one by the noise of what was sent under its number. -/
def Known (noise : α → α → Prop) (sent : List α) (inFlight : List (Copy α)) : Prop :=
  ∀ c ∈ inFlight, ∀ a, c.altered = some a → ∃ item, sent[c.number]? = some item ∧ noise item a

/-- The same system over a network that has lost what was altered beyond acceptance. -/
structure Explains (noise : α → α → Prop) (accept : α → Option δ) (d : Noisy σ α ρ) (x : Delivery σ α ρ) :
    Prop where
  sender : x.link.sender = d.sender
  sent : x.link.channel.sent = d.sent
  inFlight : x.link.channel.inFlight = d.inFlight.filterMap (Copy.sound accept)
  arrived : x.link.channel.arrived = d.arrived
  receiver : x.receiver = d.receiver
  known : Known noise d.sent d.inFlight

/-- A step of the lossy system, or none, that leads to a state explaining d'. -/
def Follows (noise : α → α → Prop) (S : Sender σ ε α) (accept : α → Option δ) (R : Receiver ρ η δ)
    (x : Delivery σ α ρ) (d' : Noisy σ α ρ) : Prop :=
  Explains noise accept d' x ∨ ∃ e y, deliveryOver anyNetwork S accept R x e = some y ∧ Explains noise accept d' y

omit [DecidableRel noise]
variable {x : Delivery σ α ρ} {i : Nat} {c : Copy α}

/-- What becomes of a copy that is taken away or altered beyond acceptance: it is lost. -/
theorem follows_gone (hx : Explains noise accept d x) (hc : d.inFlight[i]? = some c) {inFlight : List (Copy α)}
    (hflight : inFlight.filterMap (Copy.sound accept) = (d.inFlight.eraseIdx i).filterMap (Copy.sound accept))
    (hknown : Known noise d.sent inFlight) : Follows noise S accept R x { d with inFlight := inFlight } := by
  obtain ⟨j,hj⟩ := exists_place (Copy.sound accept) hc
  have herased := hj.erased
  cases hsound : c.sound accept with
  | none =>
    rw [hsound, Option.isSome_none, if_neg Bool.false_ne_true] at herased
    exact .inl ⟨hx.sender,hx.sent,hx.inFlight.trans (hflight.trans herased).symm,hx.arrived,hx.receiver,hknown⟩
  | some m =>
    rw [hsound, Option.isSome_some, if_pos rfl, ← hx.inFlight] at herased
    have hm : x.link.channel.inFlight[j]? = some m := hx.inFlight ▸ hj.kept m hsound
    have hchannel : x.link.channel.carry (.lose j) = some { x.link.channel with
        inFlight := x.link.channel.inFlight.eraseIdx j, lost := x.link.channel.lost ++ [m] } := by
      rw [Channel.carry, hm, Option.map_some]
    exact .inr ⟨_,_,(DeliverySteps.carried (.lose j) _ rfl (by rintro _ ⟨⟩) hchannel).step,hx.sender,hx.sent,
      (hflight.trans herased).symm,hx.arrived,hx.receiver,hknown⟩

/-- A second copy is one more item under way, or as lost as the first. -/
theorem follows_doubled (hx : Explains noise accept d x) (hc : d.inFlight[i]? = some c) :
    Follows noise S accept R x { d with inFlight := d.inFlight ++ [c] } := by
  obtain ⟨j,hj⟩ := exists_place (Copy.sound accept) hc
  have hknown : Known noise d.sent (d.inFlight ++ [c]) := by
    intro b hb
    obtain hb | hb := List.mem_append.mp hb
    · exact hx.known b hb
    · obtain rfl := List.mem_singleton.mp hb
      exact hx.known b (List.mem_of_getElem? hc)
  have hflight : (d.inFlight ++ [c]).filterMap (Copy.sound accept) =
      x.link.channel.inFlight ++ (c.sound accept).toList := by
    rw [List.filterMap_append, hx.inFlight, List.filterMap_cons]
    cases c.sound accept <;> rfl
  cases hsound : c.sound accept with
  | none =>
    rw [hsound, Option.toList_none, List.append_nil] at hflight
    exact .inl ⟨hx.sender,hx.sent,hflight.symm,hx.arrived,hx.receiver,hknown⟩
  | some m =>
    rw [hsound, Option.toList_some] at hflight
    have hm : x.link.channel.inFlight[j]? = some m := hx.inFlight ▸ hj.kept m hsound
    have hchannel : x.link.channel.carry (.double j) =
        some { x.link.channel with inFlight := x.link.channel.inFlight ++ [m] } := by
      rw [Channel.carry, hm, Option.map_some]
    exact .inr ⟨_,_,(DeliverySteps.carried (.double j) _ rfl (by rintro _ ⟨⟩) hchannel).step,hx.sender,hx.sent,
      hflight.symm,hx.arrived,hx.receiver,hknown⟩

/-- What is accepted of a copy is what is accepted of the item that was sent. -/
theorem copy_accepted {item : α} {data : δ}
    (hharmless : ∀ item a, noise item a → accept item ≠ none → accept a = none ∨ accept a = accept item)
    (haccepted : ∀ item ∈ d.sent, accept item ≠ none) (hknown : Known noise d.sent d.inFlight)
    (hc : d.inFlight[i]? = some c) (hitem : d.item c = some item) (hdata : accept item = some data) :
    c.sound accept = some c.number ∧ ∃ original, d.sent[c.number]? = some original ∧ accept original = some data := by
  obtain ⟨m,altered⟩ := c
  cases altered with
  | none => exact ⟨rfl,item,hitem,hdata⟩
  | some a =>
    obtain rfl := Option.some_inj.mp hitem
    obtain ⟨original,horiginal,hnoise⟩ := hknown _ (List.mem_of_getElem? hc) a rfl
    refine ⟨congrArg (Option.map (fun _ => m)) hdata,original,horiginal,?_⟩
    obtain hnone | hsame := hharmless original a hnoise (haccepted _ (List.mem_of_getElem? horiginal))
    · rw [hnone] at hdata
      cases hdata
    · rw [← hsame, hdata]

theorem follows_delivered {original : α} {data : δ} {receiver : ρ} (hx : Explains noise accept d x)
    (hc : d.inFlight[i]? = some c) (hsound : c.sound accept = some c.number)
    (horiginal : d.sent[c.number]? = some original) (hdata : accept original = some data)
    (hreceiver : R.hear d.receiver data = some receiver) :
    Follows noise S accept R x
      { d with inFlight := d.inFlight.eraseIdx i, arrived := d.arrived ++ [c.number], receiver := receiver } := by
  obtain ⟨j,hj⟩ := exists_place (Copy.sound accept) hc
  have herased := hj.erased
  rw [hsound, Option.isSome_some, if_pos rfl, ← hx.inFlight] at herased
  have hm : x.link.channel.inFlight[j]? = some c.number := hx.inFlight ▸ hj.kept _ hsound
  rw [← hx.sent] at horiginal
  rw [← hx.receiver] at hreceiver
  exact .inr ⟨_,_,(DeliverySteps.delivered j _ original data receiver rfl hm horiginal hdata hreceiver).step,hx.sender,
    hx.sent,herased.symm,congrArg (· ++ [c.number]) hx.arrived,rfl,
    fun c hc => hx.known c (List.mem_of_mem_eraseIdx hc)⟩

theorem follows_handed {e : ε} {s : σ} {out : Option α} (hx : Explains noise accept d x)
    (hs : S.step d.sender e = some (s, out)) : Follows noise S accept R x (d.handOver s out) := by
  rw [← hx.sender] at hs
  cases out with
  | none => exact .inr ⟨_,_,(DeliverySteps.quiet e s hs).step,rfl,hx.sent,hx.inFlight,hx.arrived,hx.receiver,hx.known⟩
  | some a =>
    refine .inr ⟨_,_,(DeliverySteps.sent e s a hs).step,rfl,congrArg (· ++ [a]) hx.sent,?_,hx.arrived,hx.receiver,?_⟩
    · simp only [Channel.send, Noisy.handOver, List.filterMap_append, hx.inFlight, hx.sent]
      rfl
    · intro c hc b hb
      obtain hc | hc := List.mem_append.mp hc
      · obtain ⟨item,hitem,hnoise⟩ := hx.known c hc b hb
        exact ⟨item,(List.getElem?_append_left (List.getElem?_eq_some_iff.mp hitem).1).trans hitem,hnoise⟩
      · obtain rfl := List.mem_singleton.mp hc
        cases hb

theorem follows_altered {m : Nat} {item a : α} (hx : Explains noise accept d x)
    (hc : d.inFlight[i]? = some ⟨m, none⟩) (hitem : d.sent[m]? = some item) (hnoise : noise item a) :
    Follows noise S accept R x { d with inFlight := d.inFlight.set i ⟨m, some a⟩ } := by
  have hknown : Known noise d.sent (d.inFlight.set i ⟨m, some a⟩) := by
    intro c hin b hb
    obtain hin | rfl := List.mem_or_eq_of_mem_set hin
    · exact hx.known c hin b hb
    · obtain rfl := Option.some_inj.mp hb
      exact ⟨item,hitem,hnoise⟩
  obtain ⟨j,hj⟩ := exists_place (Copy.sound accept) hc
  cases haccept : accept a with
  | none => exact follows_gone hx hc (hj.gone _ (congrArg (Option.map (fun _ => m)) haccept)) hknown
  | some data =>
    have hsame := hj.same ⟨m, some a⟩ (congrArg (Option.map (fun _ => m)) haccept)
    exact .inl ⟨hx.sender,hx.sent,hx.inFlight.trans hsame.symm,hx.arrived,hx.receiver,hknown⟩

/-- Whatever a step over the noisy network does can happen over a lossy one. -/
theorem follows_step {I : Nat → σ → Prop}
    (hharmless : ∀ item a, noise item a → accept item ≠ none → accept a = none ∨ accept a = accept item)
    (hS : S.Keeps I (fun _ item => accept item ≠ none)) (hx : Explains noise accept d x)
    (harises : Arises anyNetwork S accept R x) (hd : NoisySteps noise S accept R d d') :
    Follows noise S accept R x d' := by
  cases hd with
  | sender e s out hs => exact follows_handed hx hs
  | received e receiver hr =>
    rw [← hx.receiver] at hr
    exact .inr ⟨_,_,(DeliverySteps.received e receiver hr).step,hx.sender,hx.sent,hx.inFlight,hx.arrived,rfl,hx.known⟩
  | dropped i c item hc | lost i c hc =>
    exact follows_gone hx hc rfl (fun c hc => hx.known c (List.mem_of_mem_eraseIdx hc))
  | delivered i c item data receiver hc hitem hdata hr =>
    have haccepted : ∀ item ∈ d.sent, accept item ≠ none := by
      intro item hitem
      obtain ⟨m,hm⟩ := List.mem_iff_getElem?.mp hitem
      exact (hS.link (delivery_link harises).unrestricted).2 m item (hx.sent ▸ hm)
    obtain ⟨hsound,original,horiginal,hsame⟩ := copy_accepted hharmless haccepted hx.known hc hitem hdata
    exact follows_delivered hx hc hsound horiginal hsame hr
  | doubled i c hc => exact follows_doubled hx hc
  | altered i m item a hc hitem hnoise => exact follows_altered hx hc hitem hnoise

/-- If noise leaves of an accepted item either nothing acceptable or what was sent, then whatever
sender and receiver see over a noisy network they also see over one that only loses. -/
theorem noise_explained [DecidableRel noise] {I : Nat → σ → Prop}
    (hharmless : ∀ item a, noise item a → accept item ≠ none → accept a = none ∨ accept a = accept item)
    (hS : S.Keeps I (fun _ item => accept item ≠ none)) (h : ArisesNoisy noise S accept R d) :
    ∃ x, Arises anyNetwork S accept R x ∧ Explains noise accept d x := by
  refine Reachable.simulated ⟨rfl,rfl,rfl,rfl,rfl,by rintro _ ⟨⟩⟩ ?_ h
  intro d d' e x hx harises hd
  exact follows_step hharmless hS hx harises (noisy_steps hd)

/-- A state of the lossy system as one of the noisy system in which nothing was altered. -/
def unaltered (x : Delivery σ α ρ) : Noisy σ α ρ where
  sender := x.link.sender
  sent := x.link.channel.sent
  inFlight := x.link.channel.inFlight.map (fun m => ⟨m, none⟩)
  arrived := x.link.channel.arrived
  receiver := x.receiver

/-- A noisy network need not make noise. -/
theorem arises_unaltered [DecidableRel noise] {network : Carry → Bool} (h : Arises network S accept R x) :
    ArisesNoisy noise S accept R (unaltered x) := by
  refine Reachable.view (f := unaltered) ?_ h
  intro x x' e _ hx'
  have hcopy {i m : Nat} (hm : x.link.channel.inFlight[i]? = some m) :
      (unaltered x).inFlight[i]? = some ⟨m, none⟩ := by
    rw [unaltered, List.getElem?_map, hm, Option.map_some]
  cases delivery_steps hx' with
  | quiet e s hs =>
    refine .inr ⟨.sender e,?_⟩
    simp only [noisyStep, unaltered, hs, Option.map_some]
    rfl
  | sent e s a hs =>
    refine .inr ⟨.sender e,?_⟩
    simp only [noisyStep, unaltered, hs, Option.map_some, Noisy.handOver, Channel.send, List.map_append]
    rfl
  | received e receiver hreceiver =>
    refine .inr ⟨.receiver e,?_⟩
    simp only [noisyStep, unaltered, hreceiver, Option.map_some]
  | delivered i m item data receiver hnetwork hm hitem hdata hreceiver =>
    refine .inr ⟨.deliver i,?_⟩
    have hitem' : (unaltered x).item ⟨m, none⟩ = some item := hitem
    simp only [noisyStep, hcopy hm, hitem', Option.bind_eq_bind, Option.bind_some, hdata]
    rw [show (unaltered x).receiver = x.receiver from rfl, hreceiver, Option.bind_some]
    simp only [unaltered, List.eraseIdx_map]
  | carried w channel hnetwork hw hchannel =>
    cases move_moves (e := .carry w) hchannel with
    | deliver i => exact absurd rfl (hw i)
    | lose i m hm =>
      refine .inr ⟨.lose i,?_⟩
      rw [noisyStep, hcopy hm, Option.map_some]
      simp only [unaltered, List.eraseIdx_map]
    | double i m hm =>
      refine .inr ⟨.double i,?_⟩
      rw [noisyStep, hcopy hm, Option.map_some]
      simp only [unaltered, List.map_append, List.map_singleton]

end IbverbPrototype.Foundations.NoisyDelivery
