import Inet.Aodv.AODVNetwork

/-!
# Loop freedom

The routes to a destination form no cycle as long as a route leads to a node that knows more
about the destination, and as long as no packet says more than its sender knows. A handler
keeps that when it takes a route only for a better one, and forgets what it knows about a
destination only when no other node relies on it. The parts of the handlers that other nodes
do not see in the table send no packet that says more than the node knows.
-/

namespace Inet.Aodv

open LoopFreedom Network Run

section

variable {seqNum seqNum' hopCount hopCount' : Uint32} {route : Route}

theorem number_le_number : number seqNum hopCount ≤ number seqNum' hopCount' ↔
    seqNum < seqNum' ∨ seqNum = seqNum' ∧ hopCount' ≤ hopCount := by
  rw [number, number, WithBot.coe_le_coe, Prod.Lex.toLex_le_toLex, BitVec.lt_def,
    ← BitVec.toNat_inj]
  rfl

theorem number_lt_number : number seqNum hopCount < number seqNum' hopCount' ↔
    seqNum < seqNum' ∨ seqNum = seqNum' ∧ hopCount' < hopCount := by
  rw [number, number, WithBot.coe_lt_coe, Prod.Lex.toLex_lt_toLex, BitVec.lt_def,
    ← BitVec.toNat_inj]
  rfl

/-- One hop more is worse, unless the count wraps around. -/
theorem number_lt_of_hop (h : hopCount ≠ BitVec.allOnes 32) :
    number seqNum (hopCount + 1) < number seqNum hopCount := by
  rw [number_lt_number]
  refine .inr ⟨rfl, ?_⟩
  have hne : hopCount.toNat ≠ 2 ^ 32 - 1 := fun heq => h (BitVec.eq_of_toNat_eq (by
    rw [heq, BitVec.toNat_allOnes]))
  have hlt := hopCount.isLt
  rw [BitVec.lt_def, BitVec.toNat_add]
  show hopCount.toNat < (hopCount.toNat + 1) % 2 ^ 32
  omega

@[simp] theorem rankOf_some : rankOf (some route) = route.rank := rfl

theorem activeHop_of_active (h : route.isActive = true) :
    activeHop (some route) = route.nextHop := by
  simp [activeHop, h]

theorem activeHop_of_inactive (h : route.isActive = false) : activeHop (some route) = none := by
  simp [activeHop, h]

/-- A route with a valid sequence number is as good as it says. -/
theorem rank_of_valid (h : route.hasValidDestNum = true) :
    route.rank = number route.destSeqNum route.metric := if_pos h

theorem rank_of_not_valid (h : route.hasValidDestNum = false) : route.rank = ⊥ :=
  if_neg (ne_true_of_eq_false h)

theorem valid_of_number_le (h : number seqNum hopCount ≤ route.rank) :
    route.hasValidDestNum = true := by
  by_contra hvalid
  rw [rank_of_not_valid (eq_false_of_ne_true hvalid)] at h
  exact WithBot.not_coe_le_bot _ h

end

/-- What other nodes can see of a route: its rank, and its next hop while it is active. -/
def known (route : Option Route) : Rank × Option L3Address := (rankOf route, activeHop route)

theorem rankOf_of_known {route route' : Option Route} (h : known route' = known route) :
    rankOf route' = rankOf route := congrArg Prod.fst h

theorem activeHop_of_known {route route' : Option Route} (h : known route' = known route) :
    activeHop route' = activeHop route := congrArg Prod.snd h

/-- A change of a route that other nodes do not see. -/
def Invisible (change : Route → Route) : Prop :=
  ∀ route, known (some (change route)) = known (some route)

theorem Invisible.map {change : Route → Route} (h : Invisible change) (route : Option Route) :
    known (route.map change) = known route := by
  cases route with
  | none => rfl
  | some route => exact h route

theorem invisible_addPrecursor (addr : L3Address) :
    Invisible (Route.addPrecursor · addr) := fun _ => rfl

/-- The node has the same routes, as other nodes see them. -/
def Node.Alike (node node' : Node) : Prop :=
  ∀ dest, known (node'.findBestMatchingRoute dest) = known (node.findBestMatchingRoute dest)

namespace Node

variable {node node' node'' : Node} {destAddr dest : L3Address} {route : Route}
  {change : Route → Route}

@[simp] theorem find_putRoute : (node.putRoute destAddr route).findBestMatchingRoute dest =
    if destAddr = dest then some route else node.findBestMatchingRoute dest :=
  RoutingTable.find_put

@[simp] theorem find_modifyRoute : (node.modifyRoute destAddr change).findBestMatchingRoute dest =
    if dest = destAddr then (node.findBestMatchingRoute dest).map change
    else node.findBestMatchingRoute dest :=
  RoutingTable.find_modify

theorem Alike.refl (node : Node) : node.Alike node := fun _ => rfl

theorem Alike.trans (h : node.Alike node') (h' : node'.Alike node'') : node.Alike node'' :=
  fun dest => (h' dest).trans (h dest)

/-- A handler that leaves the table alone. -/
theorem Alike.of_routingTable (h : node'.routingTable = node.routingTable) : node.Alike node' :=
  fun _ => by rw [findBestMatchingRoute, findBestMatchingRoute, h]

theorem alike_modifyRoute (h : Invisible change) :
    node.Alike (node.modifyRoute destAddr change) := by
  intro dest
  rw [find_modifyRoute]
  split_ifs
  · exact h.map _
  · rfl

theorem alike_addPrecursor {addr : L3Address} :
    node.Alike (node.modifyRoute destAddr (·.addPrecursor addr)) :=
  alike_modifyRoute (invisible_addPrecursor addr)

theorem alike_updateValidRouteLifeTime {lifetime : SimTime} :
    node.Alike (node.updateValidRouteLifeTime destAddr lifetime) := by
  apply alike_modifyRoute
  intro route
  show known (some (if route.isActive then _ else route)) = _
  split_ifs <;> rfl

end Node

/-- The packet says no more than the node knows, which is the destination of its own Hello
messages. -/
structure Truthful (own : L3Address) (node : Node) (packet : AODVControlPacket) : Prop where
  backed : ∀ dest rank, packet.announcement = some (dest, rank) →
    own = dest ∨ rank ≤ rankOf (node.findBestMatchingRoute dest)
  hello : ∀ rrep, packet = .RREP rrep → rrep.originatorAddr = none → rrep.destAddr = own

/-- A part of a handler that no other node sees in the table, and the packets that it sends. -/
structure Passes (own : L3Address) (node : Node) (outcome : Node × List UDPPacket) : Prop where
  alike : node.Alike outcome.1
  truthful : ∀ packet ∈ outcome.2,
    packet.sourceAddr = own ∧ Truthful own node packet.ctrlPacket

section

variable {aodv : AODVParameters} {self sourceAddr destAddr : L3Address} {now : SimTime}
  {node node' : Node} {timeToLive : Uint32} {outcome : Node × List UDPPacket}
  {packet : AODVControlPacket} {rreq : AODVRREQ} {rrep : AODVRREP}

theorem Truthful.of_alike (h : node.Alike node') (hpacket : Truthful self node' packet) :
    Truthful self node packet where
  backed dest rank hrank := by
    rw [← rankOf_of_known (h dest)]
    exact hpacket.backed dest rank hrank
  hello := hpacket.hello

theorem truthful_RERR (rerr : AODVRERR) : Truthful self node (.RERR rerr) where
  backed _ _ h := by cases h
  hello _ h := by cases h

theorem truthful_RREPACK : Truthful self node .RREPACK where
  backed _ _ h := by cases h
  hello _ h := by cases h

theorem truthful_RREQ (h : self = rreq.originatorAddr ∨ number rreq.originatorSeqNum rreq.hopCount ≤
    rankOf (node.findBestMatchingRoute rreq.originatorAddr)) : Truthful self node (.RREQ rreq) where
  backed dest rank hrank := by
    cases hrank
    exact h
  hello _ h := by cases h

theorem truthful_RREP (h : self = rrep.destAddr ∨ number rrep.destSeqNum rrep.hopCount ≤
    rankOf (node.findBestMatchingRoute rrep.destAddr))
    (hello : rrep.originatorAddr = none → rrep.destAddr = self) :
    Truthful self node (.RREP rrep) where
  backed dest rank hrank := by
    cases hrank
    exact h
  hello _ h := by
    obtain rfl := AODVControlPacket.RREP.inj h
    exact hello

theorem Passes.quiet (h : node.Alike node') : Passes self node (node', []) :=
  ⟨h, fun _ hpacket => by cases hpacket⟩

theorem Passes.after (hpasses : Passes self node' outcome) (h : node.Alike node') :
    Passes self node outcome where
  alike := h.trans hpasses.alike
  truthful packet hpacket :=
    ⟨(hpasses.truthful packet hpacket).1, (hpasses.truthful packet hpacket).2.of_alike h⟩

theorem Passes.before {sent : List UDPPacket} {node'' : Node}
    (h : Passes self node (node', sent)) (h' : node'.Alike node'') :
    Passes self node (node'', sent) :=
  ⟨h.alike.trans h', h.truthful⟩

theorem Passes.append {sent sent' : List UDPPacket} {node'' : Node}
    (h : Passes self node (node', sent)) (h' : Passes self node' (node'', sent')) :
    Passes self node (node'', sent ++ sent') where
  alike := h.alike.trans h'.alike
  truthful packet hpacket := by
    obtain hpacket | hpacket := List.mem_append.mp hpacket
    · exact h.truthful packet hpacket
    · exact (h'.after h.alike).truthful packet hpacket

theorem sendAODVPacket_passes {receiver : Option L3Address} {sent : UDPPacket}
    (htruthful : Truthful self node packet)
    (h : node.sendAODVPacket self now packet receiver timeToLive = .ok (node', sent)) :
    Passes self node (node', [sent]) := by
  rw [Node.sendAODVPacket, bind_eq_ok] at h
  obtain ⟨_, -, h⟩ := h
  cases h
  constructor
  · apply Node.Alike.of_routingTable
    split_ifs <;> rfl
  · intro sent hsent
    obtain rfl := List.mem_singleton.mp hsent
    exact ⟨rfl, htruthful⟩

theorem sendRREQ_passes (h : node.sendRREQ aodv self now rreq timeToLive = .ok outcome)
    (hself : rreq.originatorAddr = self) : Passes self node outcome := by
  rw [Node.sendRREQ] at h
  by_cases hlimit : node.rreqCount ≥ aodv.rreqRatelimit
  · rw [if_pos hlimit] at h
    cases h
    exact .quiet (.refl node)
  · rw [if_neg hlimit] at h
    obtain ⟨⟨sender, sent⟩, hsend, h⟩ := bind_eq_ok.mp h
    cases h
    have hpasses := sendAODVPacket_passes (truthful_RREQ (.inl hself.symm)) hsend
    refine .after (.before hpasses ?_) ?_
    · exact .of_routingTable rfl
    · exact .of_routingTable rfl

theorem ensureRouteForDatagram_passes {source : Option L3Address}
    (h : node.ensureRouteForDatagram aodv self now source destAddr = .ok outcome) :
    Passes self node outcome := by
  rw [Node.ensureRouteForDatagram] at h
  by_cases hlocal : destAddr = self
  · rw [if_pos hlocal] at h
    cases h
    exact .quiet (.refl node)
  · rw [if_neg hlocal] at h
    dsimp only at h
    split at h
    · cases h
      exact .quiet (Node.alike_updateValidRouteLifeTime.trans Node.alike_updateValidRouteLifeTime)
    · split_ifs at h
      · cases h
        exact .quiet (.refl node)
      · exact (sendRREQ_passes h rfl).after (.of_routingTable rfl)
      · cases h
        exact .quiet (.refl node)

theorem handleWaitForRREP_passes (h : node.handleWaitForRREP aodv self now destAddr = .ok outcome) :
    Passes self node outcome := by
  rw [Node.handleWaitForRREP] at h
  split at h
  · cases h
    exact .quiet (.refl node)
  · split at h
    · rename_i retries _
      by_cases hretries : retries = aodv.rreqRetries
      · rw [if_pos hretries] at h
        cases h
        exact .quiet (.of_routingTable rfl)
      · rw [if_neg hretries] at h
        have hpasses := sendRREQ_passes h rfl
        exact hpasses.after (.of_routingTable rfl)
    · cases h

theorem sendRREP_passes (h : node.sendRREP self now rrep destAddr timeToLive = .ok outcome)
    (hrrep : self = rrep.destAddr ∨ number rrep.destSeqNum rrep.hopCount ≤
      rankOf (node.findBestMatchingRoute rrep.destAddr))
    (horiginator : rrep.originatorAddr ≠ none) : Passes self node outcome := by
  rw [Node.sendRREP] at h
  split at h
  · rename_i destRoute _
    obtain ⟨⟨sender, sent⟩, hsend, h⟩ := bind_eq_ok.mp h
    cases h
    have hprecursor : node.Alike (node.modifyRoute destAddr (·.addPrecursor destRoute.nextHop)) :=
      Node.alike_addPrecursor
    have htruthful (ackRequiredFlag : Bool) {node' : Node} (h : node.Alike node') :
        Truthful self node' (.RREP { rrep with ackRequiredFlag }) := by
      apply truthful_RREP
      · rw [rankOf_of_known (h _)]
        exact hrrep
      · exact fun hnone => absurd hnone horiginator
    split_ifs at hsend
    · refine .after (sendAODVPacket_passes (htruthful true ?_) hsend) ?_
      · exact hprecursor.trans (.of_routingTable rfl)
      · exact hprecursor.trans (.of_routingTable rfl)
    · exact (sendAODVPacket_passes (htruthful _ hprecursor) hsend).after hprecursor
  · cases h

theorem replyAsDestination_passes (h : node.replyAsDestination aodv self now rreq = .ok outcome)
    (hdest : rreq.destAddr = self) : Passes self node outcome := by
  have hpasses := sendRREP_passes h (.inl hdest.symm) (Option.some_ne_none _)
  exact hpasses.after (.of_routingTable rfl)

theorem sendGRREP_passes (h : node.sendGRREP self now rrep destAddr timeToLive = .ok outcome)
    (hrrep : self = rrep.destAddr ∨ number rrep.destSeqNum rrep.hopCount ≤
      rankOf (node.findBestMatchingRoute rrep.destAddr))
    (horiginator : rrep.originatorAddr ≠ none) : Passes self node outcome := by
  rw [Node.sendGRREP] at h
  split at h
  · obtain ⟨⟨sender, sent⟩, hsend, h⟩ := bind_eq_ok.mp h
    cases h
    exact sendAODVPacket_passes (truthful_RREP hrrep fun hnone => absurd hnone horiginator) hsend
  · cases h

theorem replyAsIntermediate_passes {destRoute : Route}
    (h : node.replyAsIntermediate self now rreq destRoute sourceAddr = .ok outcome)
    (hfind : node.freshRoute rreq = some destRoute)
    (hrreq : self = rreq.originatorAddr ∨ number rreq.originatorSeqNum rreq.hopCount ≤
      rankOf (node.findBestMatchingRoute rreq.originatorAddr)) : Passes self node outcome := by
  obtain ⟨hdest, hfresh⟩ := Option.filter_eq_some_iff.mp hfind
  simp only [Bool.and_eq_true] at hfresh
  have hprecursors : node.Alike (node.createIntermediateRREP now rreq destRoute sourceAddr).1 :=
    Node.alike_addPrecursor.trans Node.alike_addPrecursor
  rw [Node.replyAsIntermediate] at h
  obtain ⟨⟨replied, sent⟩, hreply, h⟩ := bind_eq_ok.mp h
  have hreplied : Passes self node (replied, sent) := by
    refine .after (sendRREP_passes hreply (.inr ?_) (Option.some_ne_none _)) hprecursors
    have hrank := rankOf_of_known (hprecursors rreq.destAddr)
    rw [hdest, rankOf_some, rank_of_valid hfresh.1.2] at hrank
    exact hrank.ge
  dsimp only at h
  by_cases hflag : rreq.gratuitousRREPFlag = true
  · rw [if_pos hflag] at h
    split at h
    · rename_i originatorRoute horiginator
      obtain ⟨⟨told, gratuitous⟩, hgratuitous, h⟩ := bind_eq_ok.mp h
      cases h
      refine hreplied.append (sendGRREP_passes hgratuitous ?_ (Option.some_ne_none _))
      refine hrreq.imp_right fun hle => ?_
      -- the route may be a newer one than the request tells of
      show number rreq.originatorSeqNum originatorRoute.metric ≤
        rankOf (replied.findBestMatchingRoute rreq.originatorAddr)
      rw [← rankOf_of_known (hreplied.alike _), horiginator, rankOf_some] at hle
      rw [horiginator, rankOf_some, rank_of_valid (valid_of_number_le hle)]
      rw [rank_of_valid (valid_of_number_le hle)] at hle
      rw [number_le_number] at hle ⊢
      exact hle.imp_right fun h => ⟨h.1, BitVec.le_refl _⟩
    · cases h
  · rw [if_neg hflag] at h
    cases h
    exact hreplied

theorem forwardRREQ_passes (h : node.forwardRREQ self now rreq timeToLive = .ok outcome)
    (hrreq : self = rreq.originatorAddr ∨ number rreq.originatorSeqNum rreq.hopCount ≤
      rankOf (node.findBestMatchingRoute rreq.originatorAddr)) : Passes self node outcome := by
  rw [Node.forwardRREQ] at h
  by_cases httl : timeToLive > 0
  · rw [if_pos httl] at h
    obtain ⟨⟨sender, sent⟩, hsend, h⟩ := bind_eq_ok.mp h
    cases h
    refine sendAODVPacket_passes ?_ hsend
    exact truthful_RREQ hrreq
  · rw [if_neg httl] at h
    cases h
    exact .quiet (.refl node)

/-- Once the reverse route is as good as the request says, its answer says no more than the node
knows. The destination says nothing about the originator. -/
theorem answerRREQ_passes
    (h : node.answerRREQ aodv self now rreq sourceAddr timeToLive = .ok outcome)
    (hrreq : rreq.destAddr = self ∨ self = rreq.originatorAddr ∨
      number rreq.originatorSeqNum rreq.hopCount ≤
        rankOf (node.findBestMatchingRoute rreq.originatorAddr)) : Passes self node outcome := by
  rw [Node.answerRREQ] at h
  by_cases hdest : rreq.destAddr = self
  · rw [if_pos hdest] at h
    exact replyAsDestination_passes h hdest
  · rw [if_neg hdest] at h
    have hbacked := hrreq.resolve_left hdest
    split at h
    · rename_i destRoute hfresh
      by_cases hloop : destRoute.nextHop = sourceAddr
      · rw [if_pos hloop] at h
        cases h
        exact .quiet (.refl node)
      · rw [if_neg hloop] at h
        exact replyAsIntermediate_passes h hfresh hbacked
    · exact forwardRREQ_passes h hbacked

theorem acknowledgeRREP_passes (h : node.acknowledgeRREP self now rrep sourceAddr = .ok outcome) :
    Passes self node outcome := by
  rw [Node.acknowledgeRREP] at h
  split_ifs at h
  · obtain ⟨⟨sender, sent⟩, hsend, h⟩ := bind_eq_ok.mp h
    cases h
    exact sendAODVPacket_passes truthful_RREPACK hsend
  · cases h
    exact .quiet (.refl node)

theorem forwardRREP_passes {originatorAddr : L3Address}
    (h : node.forwardRREP aodv self now rrep originatorAddr sourceAddr = .ok outcome)
    (hrrep : self = rrep.destAddr ∨ number rrep.destSeqNum rrep.hopCount ≤
      rankOf (node.findBestMatchingRoute rrep.destAddr))
    (horiginator : rrep.originatorAddr ≠ none) : Passes self node outcome := by
  rw [Node.forwardRREP] at h
  split at h
  · cases h
    exact .quiet (.refl node)
  · rename_i originatorRoute _
    have hlifeTime : node.Alike (node.modifyRoute originatorAddr fun route =>
        { route with lifeTime := max (now + aodv.activeRouteTimeout) route.lifeTime }) :=
      Node.alike_modifyRoute fun _ => rfl
    obtain ⟨⟨acked, acks⟩, hack, h⟩ := bind_eq_ok.mp h
    obtain ⟨⟨sender, sent⟩, hsend, h⟩ := bind_eq_ok.mp h
    cases h
    have hacked : Passes self node (acked, acks) := (acknowledgeRREP_passes hack).after hlifeTime
    refine hacked.append ?_
    have htruthful {node' : Node} (h : acked.Alike node') :
        Truthful self node' (.RREP { rrep with ackRequiredFlag := false }) := by
      apply truthful_RREP
      · rw [rankOf_of_known (h _), rankOf_of_known (hacked.alike _)]
        exact hrrep
      · exact fun hnone => absurd hnone horiginator
    split at hsend
    · refine .after (sendAODVPacket_passes (htruthful ?_) hsend) ?_
      · exact Node.alike_addPrecursor.trans Node.alike_addPrecursor
      · exact Node.alike_addPrecursor.trans Node.alike_addPrecursor
    · refine .after (sendAODVPacket_passes (htruthful ?_) hsend) ?_
      · exact Node.alike_addPrecursor
      · exact Node.alike_addPrecursor

theorem sendRERR_passes {unreachableNodes : List UnreachableNode}
    (h : node.sendRERR aodv self now unreachableNodes = .ok outcome) :
    Passes self node outcome := by
  rw [Node.sendRERR] at h
  split_ifs at h
  · cases h
    exact .quiet (.refl node)
  · obtain ⟨⟨sender, sent⟩, hsend, h⟩ := bind_eq_ok.mp h
    cases h
    refine .before (sendAODVPacket_passes (truthful_RERR _) hsend) ?_
    exact .of_routingTable rfl

theorem sendHelloMessagesIfNeeded_passes
    (h : node.sendHelloMessagesIfNeeded aodv self now = .ok outcome) :
    Passes self node outcome := by
  rw [Node.sendHelloMessagesIfNeeded] at h
  split_ifs at h
  · obtain ⟨⟨sender, sent⟩, hsend, h⟩ := bind_eq_ok.mp h
    cases h
    exact sendAODVPacket_passes (truthful_RREP (.inl rfl) fun _ => rfl) hsend
  · cases h
    exact .quiet (.refl node)

end

namespace Network

/-- What the node `own` may do to its route to `dest`. -/
structure Move (net : Network) (own dest : L3Address) (route : Option Route) : Prop where
  keeps : net.Replaceable own dest (rankOf route)
  hop : activeHop route = none ∨ known route = known ((net.node own).findBestMatchingRoute dest) ∨
    ∃ y, activeHop route = some y ∧ y ≠ own ∧ own ≠ dest ∧
      (y = dest ∨ rankOf route < (net.view dest).rank y)

/-- All routes lead to better ones, and no packet says too much. -/
structure Good (net : Network) : Prop where
  sound : ∀ dest, (net.view dest).Sound dest
  hello : ∀ packet ∈ net.inFlight, ∀ rrep, packet.ctrlPacket = .RREP rrep →
    rrep.originatorAddr = none → rrep.destAddr = packet.sourceAddr

variable {net net' : Network} {own dest y : L3Address} {route : Route} {routes : Option Route}
  {node' : Node} {outcome : Node × List UDPPacket} {packet : UDPPacket}

theorem Replaceable.mono {rank rank' : Rank} (h : net.Replaceable own dest rank)
    (hle : rank ≤ rank') : net.Replaceable own dest rank' :=
  h.imp_left fun hrank => hrank.trans hle

theorem Move.same (h : known routes = known ((net.node own).findBestMatchingRoute dest)) :
    net.Move own dest routes :=
  ⟨.inl (rankOf_of_known h).ge, .inr (.inl h)⟩

theorem Move.drop (hkeeps : net.Replaceable own dest route.rank) (h : route.isActive = false) :
    net.Move own dest (some route) :=
  ⟨hkeeps, .inl (activeHop_of_inactive h)⟩

theorem Move.take (hkeeps : net.Replaceable own dest route.rank) (h : route.isActive = true)
    (hother : route.nextHop ≠ own) (hdest : own ≠ dest)
    (hclimb : route.nextHop = dest ∨ route.rank < (net.view dest).rank route.nextHop) :
    net.Move own dest (some route) :=
  ⟨hkeeps, .inr (.inr ⟨route.nextHop, activeHop_of_active h, hother, hdest, hclimb⟩)⟩

theorem Good.loopFree (h : net.Good) : net.LoopFree := by
  intro dest x hloop
  apply (h.sound dest).loopFree x
  refine Relation.TransGen.mono ?_ x x hloop
  rintro x y ⟨route, hfind, hactive, rfl⟩
  show (net.view dest).next x = _
  rw [view_next, hfind, activeHop_of_active hactive]

/-- One node has changed its table and sent packets, and packets have been taken out of the
air. -/
theorem Good.put (h : net.Good) (hnode : net'.node = net.node)
    (hinFlight : ∀ packet ∈ net'.inFlight, packet ∈ net.inFlight)
    (hmoves : ∀ dest, net.Move own dest (node'.findBestMatchingRoute dest))
    (hpasses : Passes own node' outcome) : (net'.put own outcome).Good where
  sound dest := by
    have hknown := hpasses.alike dest
    have hself : (net'.put own outcome).node own = outcome.1 := Function.update_self ..
    have hother {x : L3Address} (hx : x ≠ own) : (net'.put own outcome).node x = net.node x :=
      (Function.update_of_ne hx ..).trans (congrFun hnode x)
    have hnext : ((net'.put own outcome).view dest).next own =
        activeHop (node'.findBestMatchingRoute dest) := by
      rw [view_next, hself, activeHop_of_known hknown]
    have hrank : ((net'.put own outcome).view dest).rank own =
        rankOf (node'.findBestMatchingRoute dest) := by
      rw [view_rank, hself, rankOf_of_known hknown]
    apply (h.sound dest).step
    constructor
    · intro x hx
      rw [view_next, hother hx, view_next]
    · intro x hx
      rw [view_rank, hother hx, view_rank]
    · rw [hrank]
      exact (hmoves dest).keeps
    · rw [hnext, hrank]
      refine (hmoves dest).hop.imp_right (.imp_left fun hsame => ?_)
      exact ⟨activeHop_of_known hsame, rankOf_of_known hsame⟩
    · rintro x rank ⟨packet, hpacket, rfl, hannounced⟩
      obtain hold | hnew := List.mem_append.mp hpacket
      · exact .inl ⟨packet, hinFlight packet hold, rfl, hannounced⟩
      · obtain ⟨hsource, htruthful⟩ := hpasses.truthful packet hnew
        right
        refine ⟨hsource, ?_⟩
        rw [hrank]
        exact htruthful.backed dest rank hannounced
  hello := by
    intro packet hpacket rrep hrrep hnone
    obtain hold | hnew := List.mem_append.mp hpacket
    · exact h.hello packet (hinFlight packet hold) rrep hrrep hnone
    · obtain ⟨hsource, htruthful⟩ := hpasses.truthful packet hnew
      rw [hsource]
      exact htruthful.hello rrep hrrep hnone

/-- The node has changed nothing that other nodes see. -/
theorem Good.pass (h : net.Good) (hpasses : Passes own (net.node own) outcome) :
    (net.put own outcome).Good :=
  h.put rfl (fun _ hpacket => hpacket) (fun _ => .same rfl) hpasses

/-- Packets get lost. -/
theorem Good.lose (h : net.Good) (hnode : net'.node = net.node)
    (hinFlight : ∀ packet ∈ net'.inFlight, packet ∈ net.inFlight) : net'.Good where
  sound dest := by
    apply (h.sound dest).lose
    · ext1 x
      rw [view_next, view_next, hnode]
    · ext1 x
      rw [view_rank, view_rank, hnode]
    · rintro ⟨x, rank⟩ ⟨packet, hpacket, hsource, hannounced⟩
      exact ⟨packet, hinFlight packet hpacket, hsource, hannounced⟩
  hello packet hpacket := h.hello packet (hinFlight packet hpacket)

/-- What the sender of a packet knows. -/
theorem Good.backed (h : net.Good) (hpacket : packet ∈ net.inFlight) {rank : Rank}
    (hannounced : packet.ctrlPacket.announcement = some (dest, rank)) :
    packet.sourceAddr = dest ∨ rank ≤ (net.view dest).rank packet.sourceAddr :=
  (h.sound dest).backed ⟨packet, hpacket, rfl, hannounced⟩

theorem good_initial : ({} : Network).Good where
  sound dest :=
    { stays := rfl
      climbs := fun h => by cases h
      backed := fun ⟨_, h, _⟩ => by cases h }
  hello _ h := by cases h

end Network

end Inet.Aodv
