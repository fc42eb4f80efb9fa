import Inet.Aodv.RouteLoops

/-!
# Events that keep the routes free of loops

A handler of `AODVRouting` overwrites what the node knows about a destination in cases where
other nodes may rely on it: the route to the previous hop loses its valid sequence number, a
reply to the node's own request is taken without a comparison, an error or a Hello message may
carry an older number, the flag of a request about its destination's number lets it overwrite
the reverse route, an expired route is deleted. `Harmless` says for each event when the handler
does no harm, and runs of such events keep the routes free of loops.
-/

namespace Inet.Aodv

open LoopFreedom Run

namespace Network

variable (config : L3Address → AODVParameters) (net : Network) (own : L3Address)

/-- The route to the originator of a message after the update of the route to the previous
hop. -/
def routeBehindPreviousHop (sourceAddr : L3Address) (originatorSeqNum : Uint32)
    (destAddr : L3Address) : Option Route :=
  ((net.node own).updatePreviousHop (config own) net.now sourceAddr originatorSeqNum)
    |>.findBestMatchingRoute destAddr

/-- What the node may forget when a message arrives over the previous hop. -/
abbrev Forgettable (dest : L3Address) : Prop := net.Replaceable own dest ⊥

/-- The reverse route of a request whose hop count has been incremented: a request that updates
it has no older number, and a request that does not update it is answered by its destination or
is not better than the route. -/
def HarmlessReverseRoute (rreq : AODVRREQ) (sourceAddr : L3Address) : Prop :=
  match net.routeBehindPreviousHop config own sourceAddr rreq.originatorSeqNum
    rreq.originatorAddr with
  | none => net.Forgettable own sourceAddr
  | some reverseRoute =>
    if rreq.updates reverseRoute then
      ¬ rreq.originatorSeqNum.slt reverseRoute.destSeqNum ∧
      net.Replaceable own rreq.originatorAddr (number rreq.originatorSeqNum rreq.hopCount) ∧
      (sourceAddr = rreq.originatorAddr ∨ net.Forgettable own sourceAddr)
    else
      net.Forgettable own sourceAddr ∧
      (rreq.destAddr = own ∨ number rreq.originatorSeqNum rreq.hopCount ≤ reverseRoute.rank)

def HarmlessRREQ (rreq : AODVRREQ) (sourceAddr : L3Address) : Prop :=
  if ((net.node own).blacklist sourceAddr).isSome then True
  else if (net.node own).isDuplicate (config own) net.now rreq then net.Forgettable own sourceAddr
  else
    rreq.hopCount ≠ BitVec.allOnes 32 ∧ own ≠ rreq.originatorAddr ∧
    net.HarmlessReverseRoute config own { rreq with hopCount := rreq.hopCount + 1 } sourceAddr

/-- A reply whose hop count has been incremented is taken: it is better than the forward route,
or the node waits for it. -/
def TakesReply (rrep : AODVRREP) (sourceAddr : L3Address) : Prop :=
  ∀ destRoute, net.routeBehindPreviousHop config own sourceAddr rrep.originatorSeqNum
    rrep.destAddr = some destRoute →
      rrep.updates destRoute = true ∨ rrep.originatorAddr = some own ∧
        (net.node own).hasOngoingRouteDiscovery rrep.destAddr = true

def HarmlessRREP (rrep : AODVRREP) (sourceAddr : L3Address) : Prop :=
  if rrep.originatorAddr = none then
    net.Replaceable own rrep.destAddr (number rrep.destSeqNum 1)
  else
    rrep.hopCount ≠ BitVec.allOnes 32 ∧ own ≠ rrep.destAddr ∧
    (sourceAddr = rrep.destAddr ∨ net.Forgettable own sourceAddr) ∧
    (net.TakesReply config own { rrep with hopCount := rrep.hopCount + 1 } sourceAddr →
      net.Replaceable own rrep.destAddr (number rrep.destSeqNum (rrep.hopCount + 1)))

/-- The last number that the error gives for a destination is not older than the node's. -/
def HarmlessRERR (rerr : AODVRERR) (sourceAddr : L3Address) : Prop :=
  ∀ dest route, (net.node own).findBestMatchingRoute dest = some route →
    route.isActive = true → route.nextHop = sourceAddr →
    ∀ unreachable, (rerr.unreachableNodes.filter (dest = ·.addr)).getLast? = some unreachable →
      net.Replaceable own dest { route with destSeqNum := unreachable.seqNum }.rank

/-- An acknowledgment makes no route active again that leads over another node. -/
def HarmlessRREPACK (sourceAddr : L3Address) : Prop :=
  ∀ route, (net.node own).findBestMatchingRoute sourceAddr = some route →
    (net.node own).rrepAckTimer = true → route.isActive = true ∨ route.nextHop = sourceAddr

/-- The sequence number of the route can be incremented. -/
def Incrementable (dest : L3Address) (route : Route) : Prop :=
  route.destSeqNum ≠ BitVec.allOnes 32 ∨ net.Forgettable own dest

def Harmless (event : Event) : Prop :=
  match event with
  | .deliver index receiver =>
    ∀ packet, net.inFlight[index]? = some packet → arrivesAt packet receiver = true →
      match packet.ctrlPacket with
      | .RREQ rreq => net.HarmlessRREQ config receiver rreq packet.sourceAddr
      | .RREP rrep => net.HarmlessRREP config receiver rrep packet.sourceAddr
      | .RERR rerr => net.HarmlessRERR receiver rerr packet.sourceAddr
      | .RREPACK => net.HarmlessRREPACK receiver packet.sourceAddr
  | .linkBreak self destAddr =>
    ∀ unreachableRoute, (net.node self).findBestMatchingRoute destAddr = some unreachableRoute →
    ∀ dest route, (net.node self).findBestMatchingRoute dest = some route →
      route.isActive = true → route.nextHop = unreachableRoute.nextHop →
        net.Incrementable self dest route
  | .datagramForwardHook self _ destAddr =>
    ∀ route, (net.node self).findBestMatchingRoute destAddr = some route →
      route.isActive = false → net.Incrementable self destAddr route
  | .expungeTimer self visited =>
    ∀ dest route, (net.node self).findBestMatchingRoute dest = some route →
      visited dest = true → (net.node self).deletes net.now dest route = true →
        net.Forgettable self dest
  | _ => True

end Network

section

variable {aodv : AODVParameters} {now lifeTime : SimTime} {node : Node} {rreq : AODVRREQ}
  {rrep : AODVRREP} {nextHop sourceAddr dest : L3Address} {hopCount seqNum : Uint32}
  {valid : Bool} {route : Option Route}

@[simp] theorem createOrUpdate_nextHop :
    (createOrUpdate route nextHop hopCount valid seqNum lifeTime).nextHop = nextHop := by
  cases route <;> rfl

@[simp] theorem createOrUpdate_isActive :
    (createOrUpdate route nextHop hopCount valid seqNum lifeTime).isActive = true := by
  cases route <;> rfl

theorem createOrUpdate_rank : (createOrUpdate route nextHop hopCount valid seqNum lifeTime).rank =
      if valid then number seqNum hopCount else ⊥ := by
  cases route <;> rfl

theorem maxInt_eq_right {a b : Uint32} (h : ¬ b.slt a) : maxInt a b = b := by
  rw [maxInt]
  split_ifs with hlt
  · rfl
  · rw [BitVec.slt_iff_toInt_lt] at h hlt
    apply BitVec.eq_of_toInt_eq
    omega

/-- An active route over `nextHop` with a valid number. -/
structure Route.Leads (route : Route) (nextHop : L3Address) (seqNum hopCount : Uint32) : Prop where
  isActive : route.isActive = true
  nextHop : route.nextHop = nextHop
  rank : route.rank = number seqNum hopCount

theorem createRoute_leads :
    (createRoute nextHop hopCount true seqNum true lifeTime).Leads nextHop seqNum hopCount :=
  ⟨rfl, rfl, rfl⟩

theorem updateRoutingTable_leads {old : Route} :
    (updateRoutingTable old nextHop hopCount true seqNum true lifeTime).Leads nextHop seqNum
      hopCount :=
  ⟨rfl, rfl, rfl⟩

theorem find_updatePreviousHop :
    (node.updatePreviousHop aodv now sourceAddr seqNum).findBestMatchingRoute dest =
      if sourceAddr = dest then
        some (createOrUpdate (node.findBestMatchingRoute sourceAddr) sourceAddr 1 false seqNum
          (now + aodv.activeRouteTimeout))
      else node.findBestMatchingRoute dest :=
  Node.find_putRoute

theorem find_updateReverseRoute_of_ne (h : rreq.originatorAddr ≠ dest) :
    (node.updateReverseRoute aodv now rreq sourceAddr).findBestMatchingRoute dest =
      node.findBestMatchingRoute dest := by
  rw [Node.updateReverseRoute]
  split
  · rw [Node.find_putRoute, if_neg h]
  · split_ifs
    · rw [Node.find_putRoute, if_neg h]
    · rfl

/-- The reverse route is created, or the request updates it. -/
theorem find_updateReverseRoute
    (h : ∀ reverseRoute, node.findBestMatchingRoute rreq.originatorAddr = some reverseRoute →
      rreq.updates reverseRoute = true ∧ ¬ rreq.originatorSeqNum.slt reverseRoute.destSeqNum) :
    ∃ reverseRoute, (node.updateReverseRoute aodv now rreq sourceAddr).findBestMatchingRoute
      rreq.originatorAddr = some reverseRoute ∧
      reverseRoute.Leads sourceAddr rreq.originatorSeqNum rreq.hopCount := by
  rw [Node.updateReverseRoute]
  split
  · rw [Node.find_putRoute, if_pos rfl]
    exact ⟨_, rfl, createRoute_leads⟩
  · rename_i reverseRoute hfind
    obtain ⟨hupdates, hnew⟩ := h reverseRoute hfind
    rw [if_pos hupdates, Node.find_putRoute, if_pos rfl, maxInt_eq_right hnew]
    exact ⟨_, rfl, updateRoutingTable_leads⟩

theorem find_updateReverseRoute_of_not {reverseRoute : Route}
    (hfind : node.findBestMatchingRoute rreq.originatorAddr = some reverseRoute)
    (h : ¬ rreq.updates reverseRoute = true) :
    node.updateReverseRoute aodv now rreq sourceAddr = node := by
  rw [Node.updateReverseRoute, hfind]
  exact if_neg h

theorem find_updateForwardRoute_of_ne (h : rrep.destAddr ≠ dest) :
    (node.updateForwardRoute now rrep sourceAddr).findBestMatchingRoute dest =
      node.findBestMatchingRoute dest := by
  rw [Node.updateForwardRoute]
  split
  · rw [Node.find_putRoute, if_neg h]
  · split_ifs
    · rw [Node.find_putRoute, if_neg h]
    · rfl

theorem updateForwardRoute_waitForRREPTimers :
    (node.updateForwardRoute now rrep sourceAddr).waitForRREPTimers = node.waitForRREPTimers := by
  rw [Node.updateForwardRoute]
  split
  · rfl
  · split_ifs <;> rfl

/-- A reply that does not update the forward route is not better. -/
theorem number_le_of_not_updates {destRoute : Route} (h : ¬ rrep.updates destRoute = true) :
    number rrep.destSeqNum rrep.hopCount ≤ destRoute.rank := by
  simp only [AODVRREP.updates, Bool.or_eq_true, Bool.and_eq_true, Bool.not_eq_true', beq_iff_eq,
    decide_eq_true_eq, not_or, Bool.not_eq_false] at h
  obtain ⟨⟨⟨hvalid, hnewer⟩, -⟩, hshorter⟩ := h
  rw [rank_of_valid hvalid, number_le_number]
  simp only [BitVec.lt_def, BitVec.le_def, ← BitVec.toNat_inj] at hnewer hshorter ⊢
  omega

/-- The forward route is created or updated, or it is good enough. -/
theorem find_updateForwardRoute (node : Node) (now : SimTime) (rrep : AODVRREP)
    (sourceAddr : L3Address) :
    (∃ destRoute, (node.updateForwardRoute now rrep sourceAddr).findBestMatchingRoute
        rrep.destAddr = some destRoute ∧
      destRoute.Leads sourceAddr rrep.destSeqNum rrep.hopCount ∧
      ∀ oldRoute, node.findBestMatchingRoute rrep.destAddr = some oldRoute →
        rrep.updates oldRoute = true) ∨
    ∃ destRoute, node.findBestMatchingRoute rrep.destAddr = some destRoute ∧
      node.updateForwardRoute now rrep sourceAddr = node ∧
      number rrep.destSeqNum rrep.hopCount ≤ destRoute.rank := by
  cases hfind : node.findBestMatchingRoute rrep.destAddr with
  | none =>
    left
    rw [Node.updateForwardRoute, hfind]
    refine ⟨_, Node.find_putRoute.trans (if_pos rfl), createRoute_leads, fun _ h => ?_⟩
    cases h
  | some destRoute =>
    by_cases hupdates : rrep.updates destRoute = true
    · left
      simp only [Node.updateForwardRoute, hfind, if_pos hupdates]
      refine ⟨_, Node.find_putRoute.trans (if_pos rfl), updateRoutingTable_leads, ?_⟩
      rintro oldRoute h
      cases h
      exact hupdates
    · right
      refine ⟨destRoute, rfl, ?_, number_le_of_not_updates hupdates⟩
      rw [Node.updateForwardRoute, hfind]
      exact if_neg hupdates

theorem exists_of_number_le (h : number seqNum hopCount ≤ rankOf route) :
    ∃ destRoute, route = some destRoute := by
  cases route with
  | none => exact absurd h (WithBot.not_coe_le_bot _)
  | some destRoute => exact ⟨destRoute, rfl⟩

theorem find_completeRouteDiscovery_of_ne (h : rrep.destAddr ≠ dest) :
    (node.completeRouteDiscovery now rrep sourceAddr).findBestMatchingRoute dest =
      node.findBestMatchingRoute dest := by
  rw [Node.completeRouteDiscovery]
  split_ifs
  · exact Node.find_modifyRoute.trans (if_neg h.symm)
  · rfl

/-- The reply that the node waits for replaces the forward route. -/
theorem find_completeRouteDiscovery
    (hongoing : node.hasOngoingRouteDiscovery rrep.destAddr = true) {destRoute : Route}
    (hfind : node.findBestMatchingRoute rrep.destAddr = some destRoute) :
    ∃ newRoute, (node.completeRouteDiscovery now rrep sourceAddr).findBestMatchingRoute
      rrep.destAddr = some newRoute ∧
      newRoute.Leads sourceAddr rrep.destSeqNum rrep.hopCount := by
  have hmodified : (node.completeRouteDiscovery now rrep sourceAddr).findBestMatchingRoute
      rrep.destAddr = some (updateRoutingTable destRoute sourceAddr rrep.hopCount true
        rrep.destSeqNum true (now + rrep.lifeTime)) := by
    rw [Node.completeRouteDiscovery, if_pos hongoing]
    refine (Node.find_modifyRoute.trans (if_pos rfl)).trans ?_
    rw [hfind]
    rfl
  exact ⟨_, hmodified, updateRoutingTable_leads⟩

end

namespace Network

variable {config : L3Address → AODVParameters} {net : Network} {own dest sourceAddr : L3Address}
  {node' : Node} {outcome : Node × List UDPPacket} {packet : UDPPacket} {rreq : AODVRREQ}
  {rrep : AODVRREP} {rerr : AODVRERR} {route : Route} {timeToLive : Uint32} {destAddr : L3Address}
  {node : Node} {rank : Rank} {lifetime : SimTime} {seqNum hopCount : Uint32} {index : ℕ}

/-- A handler changes the table of its node in ways that do no harm, and sends packets that say
no more than the node knows then. -/
def Accepts (net : Network) (own : L3Address) (outcome : Node × List UDPPacket) : Prop :=
  ∃ node' : Node, (∀ dest, net.Move own dest (node'.findBestMatchingRoute dest)) ∧
    Passes own node' outcome

theorem Accepts.of_passes (h : Passes own (net.node own) outcome) : net.Accepts own outcome :=
  ⟨net.node own, fun _ => .same rfl, h⟩

/-- A handler that only changes its table. -/
theorem Accepts.of_moves (h : ∀ dest, net.Move own dest (node'.findBestMatchingRoute dest)) :
    net.Accepts own (node', []) :=
  ⟨node', h, .quiet (.refl node')⟩

/-- The new route to `dest` is the one that a neighbor has announced. -/
theorem Move.learn (hkeeps : net.Replaceable own dest route.rank) (h : route.isActive = true)
    (hother : route.nextHop ≠ own) (hdest : own ≠ dest) (hworse : route.rank < rank)
    (hbacked : route.nextHop = dest ∨ rank ≤ (net.view dest).rank route.nextHop) :
    net.Move own dest (some route) :=
  .take hkeeps h hother hdest (hbacked.imp_right hworse.trans_le)

/-- The previous hop is a neighbor: the route to it leads nowhere else. -/
theorem move_previousHop (hother : sourceAddr ≠ own)
    (h : sourceAddr = dest → net.Forgettable own dest) :
    net.Move own dest (net.routeBehindPreviousHop config own sourceAddr seqNum dest) := by
  rw [routeBehindPreviousHop, find_updatePreviousHop]
  by_cases hdest : sourceAddr = dest
  · rw [if_pos hdest]
    apply Move.take
    · rw [createOrUpdate_rank]
      exact h hdest
    · exact createOrUpdate_isActive
    · rw [createOrUpdate_nextHop]
      exact hother
    · exact hdest ▸ hother.symm
    · rw [createOrUpdate_nextHop]
      exact .inl hdest
  · rw [if_neg hdest]
    exact .same rfl

/-- A route that is one hop longer than its next hop has announced. -/
theorem move_announced (hother : sourceAddr ≠ own) (hoverflow : hopCount ≠ BitVec.allOnes 32)
    (hbacked : sourceAddr = dest ∨ number seqNum hopCount ≤ (net.view dest).rank sourceAddr)
    (hself : own ≠ dest) (hkeeps : net.Replaceable own dest (number seqNum (hopCount + 1)))
    (h : route.Leads sourceAddr seqNum (hopCount + 1)) : net.Move own dest (some route) := by
  apply Move.learn
  · rw [h.rank]
    exact hkeeps
  · exact h.isActive
  · rw [h.nextHop]
    exact hother
  · exact hself
  · rw [h.rank]
    exact number_lt_of_hop hoverflow
  · rw [h.nextHop]
    exact hbacked

theorem replaceable_of_none (h : (net.node own).findBestMatchingRoute dest = none) :
    net.Replaceable own dest rank := by
  left
  rw [h]
  exact bot_le

/-- A destination other than the previous hop has no route now if it has none behind the update
of the previous hop. -/
theorem replaceable_of_behind_none
    (h : net.routeBehindPreviousHop config own sourceAddr seqNum dest = none) :
    net.Replaceable own dest rank := by
  rw [routeBehindPreviousHop, find_updatePreviousHop] at h
  split_ifs at h
  exact replaceable_of_none h

/-- The request has come one hop further, and its reverse route has been updated. -/
theorem accepts_answerRREQ (hfind : ∀ dest, node.findBestMatchingRoute dest =
      net.routeBehindPreviousHop config own sourceAddr rreq.originatorSeqNum dest)
    (hhop : rreq.hopCount = hopCount + 1) (hother : sourceAddr ≠ own)
    (hoverflow : hopCount ≠ BitVec.allOnes 32)
    (hbacked : sourceAddr = rreq.originatorAddr ∨ number rreq.originatorSeqNum hopCount ≤
      (net.view rreq.originatorAddr).rank sourceAddr) (hself : own ≠ rreq.originatorAddr)
    (hharmless : net.HarmlessReverseRoute config own rreq sourceAddr)
    (hrun : (node.updateReverseRoute (config own) net.now rreq sourceAddr).answerRREQ (config own)
      own net.now rreq sourceAddr timeToLive = .ok outcome) : net.Accepts own outcome := by
  have hlearn (hupdates : ∀ reverseRoute,
        node.findBestMatchingRoute rreq.originatorAddr = some reverseRoute →
          rreq.updates reverseRoute = true ∧ ¬ rreq.originatorSeqNum.slt reverseRoute.destSeqNum)
      (hkeeps : net.Replaceable own rreq.originatorAddr
        (number rreq.originatorSeqNum rreq.hopCount))
      (hforget : sourceAddr = rreq.originatorAddr ∨ net.Forgettable own sourceAddr) :
      net.Accepts own outcome := by
    obtain ⟨reverseRoute, hreverse, hleads⟩ := find_updateReverseRoute hupdates
    refine ⟨_, fun dest => ?_, answerRREQ_passes hrun (.inr (.inr ?_))⟩
    · by_cases hdest : rreq.originatorAddr = dest
      · subst hdest
        rw [hreverse]
        rw [hhop] at hkeeps hleads
        exact move_announced hother hoverflow hbacked hself hkeeps hleads
      · rw [find_updateReverseRoute_of_ne hdest, hfind]
        apply move_previousHop hother
        rintro rfl
        exact hforget.resolve_left (Ne.symm hdest)
    · rw [hreverse, rankOf_some, hleads.rank]
  rw [HarmlessReverseRoute, ← hfind] at hharmless
  split at hharmless
  · rename_i hnone
    refine hlearn (fun reverseRoute hsome => ?_) ?_ (.inr hharmless)
    · cases hnone.symm.trans hsome
    · exact replaceable_of_behind_none ((hfind _).symm.trans hnone)
  · rename_i reverseRoute hsome
    by_cases hupdates : rreq.updates reverseRoute = true
    · rw [if_pos hupdates] at hharmless
      obtain ⟨hnew, hkeeps, hforget⟩ := hharmless
      refine hlearn (fun route hroute => ?_) hkeeps hforget
      obtain rfl := Option.some.inj (hsome.symm.trans hroute)
      exact ⟨hupdates, hnew⟩
    · rw [if_neg hupdates] at hharmless
      obtain ⟨hforget, hanswered⟩ := hharmless
      rw [find_updateReverseRoute_of_not hsome hupdates] at hrun
      refine ⟨_, fun dest => ?_, answerRREQ_passes hrun ?_⟩
      · rw [hfind]
        exact move_previousHop hother fun hdest => hdest ▸ hforget
      · refine hanswered.imp_right fun hle => .inr ?_
        rw [hsome]
        exact hle

theorem accepts_RREQ (h : net.Good) (hpacket : packet ∈ net.inFlight)
    (hrreq : packet.ctrlPacket = .RREQ rreq) (hother : packet.sourceAddr ≠ own)
    (hharmless : net.HarmlessRREQ config own rreq packet.sourceAddr)
    (hrun : (net.node own).handleRREQ (config own) own net.now rreq packet.sourceAddr timeToLive =
      .ok outcome) : net.Accepts own outcome := by
  have hbacked := h.backed hpacket (congrArg AODVControlPacket.announcement hrreq)
  rw [Node.handleRREQ] at hrun
  rw [HarmlessRREQ] at hharmless
  by_cases hblacklist : ((net.node own).blacklist packet.sourceAddr).isSome = true
  · rw [if_pos hblacklist] at hrun
    cases hrun
    exact .of_passes (.quiet (.refl _))
  rw [if_neg hblacklist] at hrun hharmless
  by_cases hduplicate : (net.node own).isDuplicate (config own) net.now rreq = true
  · rw [if_pos hduplicate] at hharmless
    obtain rfl := Except.ok.inj ((if_pos hduplicate).symm.trans hrun)
    exact .of_moves fun dest => move_previousHop hother fun hdest => hdest ▸ hharmless
  rw [if_neg hduplicate] at hharmless
  obtain ⟨hoverflow, hself, hreverse⟩ := hharmless
  have hanswer := (if_neg hduplicate).symm.trans hrun
  have hhop : { rreq with hopCount := rreq.hopCount + 1 }.hopCount = rreq.hopCount + 1 := rfl
  refine accepts_answerRREQ ?_ hhop hother hoverflow hbacked hself hreverse hanswer
  exact fun _ => rfl

theorem accepts_hello (h : net.Good) (hpacket : packet ∈ net.inFlight)
    (hrrep : packet.ctrlPacket = .RREP rrep) (hother : packet.sourceAddr ≠ own)
    (hhello : rrep.originatorAddr = none)
    (hharmless : net.Replaceable own rrep.destAddr (number rrep.destSeqNum 1)) :
    net.Accepts own ((net.node own).handleHelloMessage (config own) net.now rrep, []) := by
  have hsource := h.hello packet hpacket rrep hrrep hhello
  refine .of_moves fun dest => ?_
  rw [Node.handleHelloMessage, Node.find_putRoute]
  by_cases hdest : rrep.destAddr = dest
  · rw [if_pos hdest]
    apply Move.take
    · rw [createOrUpdate_rank]
      exact hdest ▸ hharmless
    · exact createOrUpdate_isActive
    · rw [createOrUpdate_nextHop, hsource]
      exact hother
    · rw [← hdest, hsource]
      exact hother.symm
    · rw [createOrUpdate_nextHop]
      exact .inl hdest
  · rw [if_neg hdest]
    exact .same rfl

/-- The reply has come one hop further, and the route to the previous hop has been updated. -/
theorem accepts_reply {originatorAddr : L3Address}
    (hfind : ∀ dest, node.findBestMatchingRoute dest =
      net.routeBehindPreviousHop config own sourceAddr rrep.originatorSeqNum dest)
    (hwait : node.waitForRREPTimers = (net.node own).waitForRREPTimers)
    (hhop : rrep.hopCount = hopCount + 1) (hother : sourceAddr ≠ own)
    (hoverflow : hopCount ≠ BitVec.allOnes 32)
    (hbacked : sourceAddr = rrep.destAddr ∨ number rrep.destSeqNum hopCount ≤
      (net.view rrep.destAddr).rank sourceAddr) (hself : own ≠ rrep.destAddr)
    (hforget : sourceAddr = rrep.destAddr ∨ net.Forgettable own sourceAddr)
    (hkeeps : net.TakesReply config own rrep sourceAddr →
      net.Replaceable own rrep.destAddr (number rrep.destSeqNum rrep.hopCount))
    (horiginator : rrep.originatorAddr = some originatorAddr)
    (hrun : (let node := node.updateForwardRoute net.now rrep sourceAddr
      if own ≠ originatorAddr then
        node.forwardRREP (config own) own net.now rrep originatorAddr sourceAddr
      else pure (node.completeRouteDiscovery net.now rrep sourceAddr, [])) = .ok outcome) :
    net.Accepts own outcome := by
  -- the routes to other destinations are those behind the update of the previous hop
  have hrest (dest : L3Address) (hdest : rrep.destAddr ≠ dest) : net.Move own dest
      ((node.updateForwardRoute net.now rrep sourceAddr).findBestMatchingRoute dest) := by
    rw [find_updateForwardRoute_of_ne hdest, hfind]
    apply move_previousHop hother
    rintro rfl
    exact hforget.resolve_left (Ne.symm hdest)
  have hlearned {route : Route} (htakes : net.TakesReply config own rrep sourceAddr)
      (hleads : route.Leads sourceAddr rrep.destSeqNum rrep.hopCount) :
      net.Move own rrep.destAddr (some route) := by
    have hnew := hkeeps htakes
    rw [hhop] at hnew hleads
    exact move_announced hother hoverflow hbacked hself hnew hleads
  -- the forward route is taken, or it is as good as the reply
  have hforward : net.Move own rrep.destAddr
      ((node.updateForwardRoute net.now rrep sourceAddr).findBestMatchingRoute rrep.destAddr) ∧
      number rrep.destSeqNum rrep.hopCount ≤
        rankOf ((node.updateForwardRoute net.now rrep sourceAddr).findBestMatchingRoute
          rrep.destAddr) := by
    obtain ⟨destRoute, hdestRoute, hleads, hupdates⟩ | ⟨destRoute, hdestRoute, hsame, hle⟩ :=
      find_updateForwardRoute node net.now rrep sourceAddr
    · rw [hdestRoute, rankOf_some, hleads.rank]
      refine ⟨hlearned (fun oldRoute hold => .inl (hupdates oldRoute ?_)) hleads, le_refl _⟩
      exact (hfind _).trans hold
    · rw [hsame, hdestRoute, rankOf_some]
      refine ⟨?_, hle⟩
      rw [← hdestRoute, hfind]
      apply move_previousHop hother
      rintro rfl
      -- the sender would be the destination, whose route has no valid number now
      rw [hfind, routeBehindPreviousHop, find_updatePreviousHop, if_pos rfl] at hdestRoute
      cases hdestRoute
      rw [createOrUpdate_rank] at hle
      exact absurd hle (WithBot.not_coe_le_bot _)
  by_cases horig : own ≠ originatorAddr
  · have hforwarded := (if_pos horig).symm.trans hrun
    refine ⟨_, fun dest => ?_, forwardRREP_passes hforwarded (.inr hforward.2) ?_⟩
    · by_cases hdest : rrep.destAddr = dest
      · exact hdest ▸ hforward.1
      · exact hrest dest hdest
    · rw [horiginator]
      exact Option.some_ne_none _
  · obtain rfl := Except.ok.inj ((if_neg horig).symm.trans hrun)
    refine .of_moves fun dest => ?_
    by_cases hdest : rrep.destAddr = dest
    · subst hdest
      by_cases hongoing : (node.updateForwardRoute net.now rrep sourceAddr).hasOngoingRouteDiscovery
            rrep.destAddr = true
      · obtain ⟨destRoute, hdestRoute⟩ := exists_of_number_le hforward.2
        obtain ⟨newRoute, hnewRoute, hleads⟩ : ∃ newRoute,
            ((node.updateForwardRoute net.now rrep sourceAddr).completeRouteDiscovery net.now rrep
              sourceAddr).findBestMatchingRoute rrep.destAddr = some newRoute ∧
            newRoute.Leads sourceAddr rrep.destSeqNum rrep.hopCount :=
          find_completeRouteDiscovery hongoing hdestRoute
        rw [hnewRoute]
        refine hlearned (fun _ _ => .inr ⟨?_, ?_⟩) hleads
        · rw [horiginator, not_not.mp horig]
        · rw [Node.hasOngoingRouteDiscovery, updateForwardRoute_waitForRREPTimers, hwait]
            at hongoing
          exact hongoing
      · rw [Node.completeRouteDiscovery, if_neg hongoing]
        exact hforward.1
    · rw [find_completeRouteDiscovery_of_ne hdest]
      exact hrest dest hdest

theorem accepts_RREP (h : net.Good) (hpacket : packet ∈ net.inFlight)
    (hrrep : packet.ctrlPacket = .RREP rrep) (hother : packet.sourceAddr ≠ own)
    (hharmless : net.HarmlessRREP config own rrep packet.sourceAddr)
    (hrun : (net.node own).handleRREP (config own) own net.now rrep packet.sourceAddr =
      .ok outcome) : net.Accepts own outcome := by
  have hbacked := h.backed hpacket (congrArg AODVControlPacket.announcement hrrep)
  rw [HarmlessRREP] at hharmless
  rw [Node.handleRREP] at hrun
  split at hrun
  · rename_i hhello
    cases hrun
    rw [if_pos hhello] at hharmless
    exact accepts_hello h hpacket hrrep hother hhello hharmless
  · rename_i originatorAddr horiginator
    rw [if_neg (by rw [horiginator]; exact Option.some_ne_none _)] at hharmless
    obtain ⟨hoverflow, hself, hforget, hkeeps⟩ := hharmless
    have hhop : { rrep with hopCount := rrep.hopCount + 1 }.hopCount = rrep.hopCount + 1 := rfl
    refine accepts_reply ?_ ?_ hhop hother hoverflow hbacked hself hforget hkeeps ?_ hrun
    · exact fun _ => rfl
    · rfl
    · exact horiginator

theorem foldl_invalidateRoute {aodv : AODVParameters} {now : SimTime}
    (unreachableNodes : List UnreachableNode) :
    unreachableNodes.foldl (Node.invalidateRoute aodv now dest) route =
      match (unreachableNodes.filter (dest = ·.addr)).getLast? with
      | none => route
      | some unreachable =>
        { route with
          destSeqNum := unreachable.seqNum
          isActive := false
          lifeTime := now + aodv.deletePeriod } := by
  induction unreachableNodes using List.reverseRecOn with
  | nil => rfl
  | append_singleton unreachableNodes unreachable ih =>
    rw [List.foldl_append, List.foldl_cons, List.foldl_nil, ih, Node.invalidateRoute,
      List.filter_append]
    by_cases haddr : dest = unreachable.addr
    · rw [if_pos haddr, List.filter_cons_of_pos (by simpa using haddr), List.filter_nil,
        List.getLast?_append]
      split <;> rfl
    · rw [if_neg haddr, List.filter_cons_of_neg (by simpa using haddr), List.filter_nil,
        List.append_nil]

theorem accepts_RERR (hharmless : net.HarmlessRERR own rerr sourceAddr)
    (hrun : (net.node own).handleRERR (config own) own net.now rerr sourceAddr = .ok outcome) :
    net.Accepts own outcome := by
  refine ⟨_, fun dest => ?_, sendRERR_passes hrun⟩
  rw [Node.findBestMatchingRoute, RoutingTable.find_mapRoutes]
  cases hfind : (net.node own).routingTable.findBestMatchingRoute dest with
  | none => exact .same (congrArg known hfind.symm)
  | some route =>
    rw [Option.map_some, Node.applyRERR]
    split_ifs with hconcerned
    · rw [Bool.and_eq_true, beq_iff_eq] at hconcerned
      rw [foldl_invalidateRoute]
      split
      · exact .same (congrArg known hfind.symm)
      · rename_i unreachable hlast
        refine .drop ?_ rfl
        exact hharmless dest route hfind hconcerned.1 hconcerned.2 unreachable hlast
    · exact .same (congrArg known hfind.symm)

theorem accepts_RREPACK (hother : sourceAddr ≠ own)
    (hharmless : net.HarmlessRREPACK own sourceAddr) :
    net.Accepts own ((net.node own).handleRREPACK sourceAddr, []) := by
  refine .of_moves fun dest => ?_
  rw [Node.handleRREPACK]
  split_ifs with hacked
  · rw [Bool.and_eq_true] at hacked
    refine (@Node.find_modifyRoute (net.node own) _ _ _).symm ▸ ?_
    split_ifs with hdest
    · subst hdest
      cases hfind : (net.node own).findBestMatchingRoute dest with
      | none => exact .same (congrArg known hfind.symm)
      | some route =>
        obtain hactive | hnext := hharmless route hfind hacked.1
        · refine .same ?_
          rw [hfind, Option.map_some, ← hactive]
        · refine .take (.inl ?_) rfl ?_ hother.symm (.inl hnext)
          · rw [hfind]
            exact le_refl _
          · exact hnext ▸ hother
    · exact .same rfl
  · exact .same rfl

theorem Incrementable.replaceable (h : net.Incrementable own dest route)
    (hfind : (net.node own).findBestMatchingRoute dest = some route)
    (hvalid : route.hasValidDestNum = true) :
    net.Replaceable own dest (number (route.destSeqNum + 1) route.metric) := by
  obtain hne | hforget := h
  · left
    rw [hfind, rankOf_some, rank_of_valid hvalid, number_le_number]
    left
    have hmax : route.destSeqNum.toNat ≠ 2 ^ 32 - 1 := fun heq =>
      hne (BitVec.eq_of_toNat_eq (by rw [heq, BitVec.toNat_allOnes]))
    have hlt := route.destSeqNum.isLt
    rw [BitVec.lt_def, BitVec.toNat_add]
    show route.destSeqNum.toNat < (route.destSeqNum.toNat + 1) % 2 ^ 32
    omega
  · exact hforget.mono bot_le

/-- A link break invalidates the routes over the neighbor, and counts their numbers up. -/
theorem accepts_linkBreak {unreachableAddr : L3Address}
    (hharmless : ∀ dest route, (net.node own).findBestMatchingRoute dest = some route →
      route.isActive = true → route.nextHop = unreachableAddr → net.Incrementable own dest route)
    (hrun : (net.node own).handleLinkBreakSendRERR (config own) own net.now unreachableAddr =
      .ok outcome) : net.Accepts own outcome := by
  rw [Node.handleLinkBreakSendRERR] at hrun
  split at hrun
  · cases hrun
    exact .of_passes (.quiet (.refl _))
  · refine ⟨_, fun dest => ?_, sendRERR_passes hrun⟩
    rw [Node.findBestMatchingRoute, RoutingTable.find_mapRoutes]
    cases hfind : (net.node own).routingTable.findBestMatchingRoute dest with
    | none => exact .same (congrArg known hfind.symm)
    | some route =>
      rw [Option.map_some, Node.breakRoute]
      split_ifs with hover hvalid
      · rw [Bool.and_eq_true, beq_iff_eq] at hover
        refine .drop ?_ rfl
        have hrank : Route.rank { route with
            destSeqNum := route.destSeqNum + 1
            isActive := false
            lifeTime := net.now + (config own).deletePeriod } =
              number (route.destSeqNum + 1) route.metric := rank_of_valid hvalid
        rw [hrank]
        exact (hharmless dest route hfind hover.1 hover.2).replaceable hfind hvalid
      · refine .drop (.inl ?_) rfl
        rw [Node.findBestMatchingRoute, hfind]
        exact le_refl _
      · exact .same (congrArg known hfind.symm)

theorem accepts_receiveLinkBreak (hharmless : net.Harmless config (.linkBreak own destAddr))
    (hrun : (net.node own).receiveLinkBreak (config own) own net.now destAddr = .ok outcome) :
    net.Accepts own outcome := by
  rw [Node.receiveLinkBreak] at hrun
  split at hrun
  · cases hrun
    exact .of_passes (.quiet (.refl _))
  · rename_i unreachableRoute hfind
    exact accepts_linkBreak (hharmless unreachableRoute hfind) hrun

theorem accepts_expungeRoutes {visited : L3Address → Bool}
    (hharmless : net.Harmless config (.expungeTimer own visited)) :
    net.Accepts own ((net.node own).expungeRoutes (config own) net.now visited, []) := by
  refine .of_moves fun dest => ?_
  rw [Node.expungeRoutes, Node.findBestMatchingRoute, RoutingTable.find_mapRoutes,
    RoutingTable.find_filterRoutes]
  cases hfind : (net.node own).routingTable.findBestMatchingRoute dest with
  | none => exact .same (congrArg known hfind.symm)
  | some route =>
    rw [Option.filter_some]
    by_cases hdeleted : (visited dest && (net.node own).deletes net.now dest route) = true
    · rw [hdeleted]
      rw [Bool.and_eq_true] at hdeleted
      exact ⟨hharmless dest route hfind hdeleted.1 hdeleted.2, .inl rfl⟩
    · rw [eq_false_of_ne_true hdeleted, Bool.not_false, if_pos rfl, Option.map_some]
      split_ifs with hvisited
      · rw [Node.expireRoute]
        split_ifs
        · refine .drop (.inl ?_) rfl
          rw [Node.findBestMatchingRoute, hfind]
          exact le_refl _
        · refine .same ?_
          rw [Node.findBestMatchingRoute, hfind]
          rfl
        · exact .same (congrArg known hfind.symm)
        · exact .same (congrArg known hfind.symm)
      · exact .same (congrArg known hfind.symm)

/-- The two nodes have the same routes up to their lifetimes. -/
def SameButLifeTime (node node' : Node) : Prop :=
  ∀ dest, (node'.findBestMatchingRoute dest).map (fun route => { route with lifeTime := 0 }) =
    (node.findBestMatchingRoute dest).map fun route => { route with lifeTime := 0 }

theorem SameButLifeTime.trans {node' node'' : Node} (h : SameButLifeTime node node')
    (h' : SameButLifeTime node' node'') : SameButLifeTime node node'' :=
  fun dest => (h' dest).trans (h dest)

theorem sameButLifeTime_update :
    SameButLifeTime node (node.updateValidRouteLifeTime destAddr lifetime) := by
  intro dest
  rw [Node.updateValidRouteLifeTime, Node.find_modifyRoute]
  split_ifs
  · cases node.findBestMatchingRoute dest with
    | none => rfl
    | some route =>
      simp only [Option.map_some]
      split_ifs <;> rfl
  · rfl

theorem sameButLifeTime_nextHop {routes : Option Route} :
    SameButLifeTime node (node.updateNextHopLifeTime routes lifetime) := by
  cases routes with
  | none => exact fun _ => rfl
  | some route => exact sameButLifeTime_update

theorem sameButLifeTime_extend :
    SameButLifeTime node (node.extendLifeTimes sourceAddr destAddr lifetime) :=
  (sameButLifeTime_update.trans sameButLifeTime_update).trans
    (sameButLifeTime_nextHop.trans sameButLifeTime_nextHop)

theorem SameButLifeTime.alike {node' : Node} (h : SameButLifeTime node node') :
    node.Alike node' := by
  intro dest
  have hknown (route : Option Route) :
      known (route.map fun route => { route with lifeTime := 0 }) = known route := by
    cases route <;> rfl
  rw [← hknown, h dest, hknown]

/-- An inactive route that a datagram asks for has its number counted up. -/
theorem accepts_countUp {lifeTime : SimTime} (hsame : SameButLifeTime (net.node own) node)
    (hfind : (net.node own).findBestMatchingRoute destAddr = some route)
    (hinactive : route.isActive = false) (hharmless : net.Incrementable own destAddr route)
    {unreachableNodes : List UnreachableNode} (hrun : (node.modifyRoute destAddr fun old =>
      { old with
        destSeqNum := if route.hasValidDestNum then route.destSeqNum + 1 else route.destSeqNum
        lifeTime }).sendRERR (config own) own net.now unreachableNodes = .ok outcome) :
    net.Accepts own outcome := by
  refine ⟨_, fun dest => ?_, sendRERR_passes hrun⟩
  by_cases hdest : dest = destAddr
  · subst hdest
    have hroute := hsame dest
    rw [hfind] at hroute
    obtain ⟨old, hold, heq⟩ := Option.map_eq_some_iff.mp hroute
    obtain ⟨-, hmetric, -, -, hactive, hvalid, -⟩ := Route.mk.inj heq
    rw [Node.find_modifyRoute, if_pos rfl, hold, Option.map_some]
    refine .drop ?_ (hactive.trans hinactive)
    cases h : route.hasValidDestNum with
    | true =>
      have hrank : Route.rank { old with destSeqNum := route.destSeqNum + 1, lifeTime } =
          number (route.destSeqNum + 1) route.metric := by
        rw [← hmetric]
        exact rank_of_valid (hvalid.trans h)
      rw [if_pos rfl, hrank]
      exact hharmless.replaceable hfind h
    | false =>
      left
      rw [hfind, rankOf_some, rank_of_not_valid h]
      exact bot_le
  · rw [Node.find_modifyRoute, if_neg hdest]
    exact .same (hsame.alike dest)

theorem accepts_datagramForwardHook
    (hharmless : net.Harmless config (.datagramForwardHook own sourceAddr destAddr))
    (hrun : (net.node own).datagramForwardHook (config own) own net.now sourceAddr destAddr =
      .ok outcome) : net.Accepts own outcome := by
  rw [Node.datagramForwardHook] at hrun
  by_cases hlocal : destAddr = own
  · rw [if_pos hlocal] at hrun
    cases hrun
    exact .of_passes (.quiet sameButLifeTime_nextHop.alike)
  rw [if_neg hlocal] at hrun
  dsimp only at hrun
  split at hrun
  · rename_i route hfind
    by_cases hactive : route.isActive = true
    · rw [if_pos hactive] at hrun
      cases hrun
      exact .of_passes (.quiet sameButLifeTime_extend.alike)
    · rw [if_neg hactive] at hrun
      have hinactive := eq_false_of_ne_true hactive
      exact accepts_countUp sameButLifeTime_extend hfind hinactive
        (hharmless route hfind hinactive) hrun
  · exact .of_passes ((sendRERR_passes hrun).after sameButLifeTime_extend.alike)

theorem Accepts.put (h : net.Good) (haccepts : net.Accepts own outcome) {net' : Network}
    (hnode : net'.node = net.node)
    (hinFlight : ∀ packet ∈ net'.inFlight, packet ∈ net.inFlight) :
    (net'.put own outcome).Good := by
  obtain ⟨node', hmoves, hpasses⟩ := haccepts
  exact h.put hnode hinFlight hmoves hpasses

theorem take_node : (net.take index packet).node = net.node := by
  rw [take]
  split_ifs <;> rfl

theorem mem_of_mem_take {p : UDPPacket} (h : p ∈ (net.take index packet).inFlight) :
    p ∈ net.inFlight := by
  rw [take] at h
  split_ifs at h
  · exact List.mem_of_mem_eraseIdx h
  · exact h

/-- The receiver handles a packet that arrives. -/
theorem accepts_handleMessage (h : net.Good) (hget : net.inFlight[index]? = some packet)
    (harrives : arrivesAt packet own = true)
    (hharmless : net.Harmless config (.deliver index own))
    (hrun : (net.node own).handleMessage (config own) own net.now (arrived packet) =
      .ok outcome) : net.Accepts own outcome := by
  have hpacket := List.mem_of_getElem? hget
  have hother : packet.sourceAddr ≠ own := by
    rw [arrivesAt, Bool.and_eq_true, bne_iff_ne] at harrives
    exact harrives.1
  have hctrl := hharmless packet hget harrives
  rw [Node.handleMessage, show (arrived packet).ctrlPacket = packet.ctrlPacket from rfl] at hrun
  split at hrun
  · rename_i rreq hrreq
    rw [hrreq] at hctrl
    exact accepts_RREQ h hpacket hrreq hother hctrl hrun
  · rename_i rrep hrrep
    rw [hrrep] at hctrl
    exact accepts_RREP h hpacket hrrep hother hctrl hrun
  · rename_i rerr hrerr
    rw [hrerr] at hctrl
    exact accepts_RERR hctrl hrun
  · rename_i hrrepack
    rw [hrrepack] at hctrl
    cases hrun
    exact accepts_RREPACK hother hctrl

/-- A harmless event keeps the network good. -/
theorem Good.step (h : net.Good) {event : Event} {net' : Network}
    (hharmless : net.Harmless config event) (hstep : net.step config event = .ok net') :
    net'.Good := by
  have hpacket : ∀ packet ∈ net.inFlight, packet ∈ net.inFlight := fun _ hpacket => hpacket
  cases event with
  | elapse duration =>
    cases hstep
    exact h.lose rfl hpacket
  | lose index =>
    cases hstep
    exact h.lose rfl fun _ => List.mem_of_mem_eraseIdx
  | deliver index receiver =>
    rw [Network.step] at hstep
    split at hstep
    · cases hstep
      exact h
    · rename_i packet hget
      by_cases harrives : arrivesAt packet receiver = true
      · rw [if_pos harrives] at hstep
        obtain ⟨outcome, hrun, rfl⟩ := Result.map_eq_ok.mp hstep
        exact (accepts_handleMessage h hget harrives hharmless hrun).put h take_node
          fun _ => mem_of_mem_take
      · rw [if_neg harrives] at hstep
        cases hstep
        exact h
  | datagramPreRoutingHook self sourceAddr destAddr =>
    obtain ⟨outcome, hrun, rfl⟩ := Result.map_eq_ok.mp hstep
    exact h.pass (ensureRouteForDatagram_passes hrun)
  | datagramForwardHook self sourceAddr destAddr =>
    obtain ⟨outcome, hrun, rfl⟩ := Result.map_eq_ok.mp hstep
    exact (accepts_datagramForwardHook hharmless hrun).put h rfl hpacket
  | linkBreak self destAddr =>
    obtain ⟨outcome, hrun, rfl⟩ := Result.map_eq_ok.mp hstep
    exact (accepts_receiveLinkBreak hharmless hrun).put h rfl hpacket
  | expungeTimer self visited =>
    cases hstep
    exact (accepts_expungeRoutes hharmless).put h rfl hpacket
  | helloMsgTimer self =>
    obtain ⟨outcome, hrun, rfl⟩ := Result.map_eq_ok.mp hstep
    exact h.pass (sendHelloMessagesIfNeeded_passes hrun)
  | counterTimer self =>
    cases hstep
    exact h.pass (.quiet (.of_routingTable rfl))
  | waitForRREP self destAddr =>
    obtain ⟨outcome, hrun, rfl⟩ := Result.map_eq_ok.mp hstep
    exact h.pass (handleWaitForRREP_passes hrun)
  | rrepAckTimer self =>
    cases hstep
    refine h.pass (.quiet (.of_routingTable ?_))
    rw [Node.handleRREPACKTimer]
    split_ifs <;> rfl
  | blacklistTimer self =>
    cases hstep
    exact h.pass (.quiet (.of_routingTable rfl))

/-- A run of harmless events never closes a cycle of active routes. -/
theorem loopFree_of_harmless (config : L3Address → AODVParameters) (events : List Event)
    (h : Admissible (step config) (Harmless config) {} events) :
    Throughout (step config) LoopFree {} events :=
  (throughout_of_step (fun _ _ _ hgood hharmless hstep => hgood.step hharmless hstep)
    good_initial h).mono fun _ hgood => hgood.loopFree

def sampleParameters : AODVParameters where
  helloInterval := 1000
  activeRouteTimeout := 3000
  nodeTraversalTime := 40
  deletePeriod := 15000
  myRouteTimeout := 6000
  blacklistTimeout := 5600
  netTraversalTime := 2800
  pathDiscoveryTime := 5600

/-- Node 1 looks for node 9, so that node 2 and behind it node 3 have routes to node 1. A request
of node 3 that node 1 forwards takes the number from the route of node 2. Its link to node 1
breaks, it looks for a new route over node 4, and node 3 answers with its route over node 2. -/
def overwrittenHopEvents : List Event :=
  [.datagramPreRoutingHook 1 none 9, .deliver 0 2, .deliver 1 3,
   .datagramPreRoutingHook 3 none 8, .datagramPreRoutingHook 3 none 7, .deliver 3 1, .deliver 4 2,
   .linkBreak 2 1,
   .datagramPreRoutingHook 2 none 5, .datagramPreRoutingHook 2 none 6,
   .datagramPreRoutingHook 2 none 1, .deliver 8 4, .deliver 9 3, .deliver 10 4, .deliver 10 2]

theorem forwardsTo_of_activeHop {x y : L3Address}
    (h : activeHop ((net.node x).findBestMatchingRoute dest) = some y) :
    net.ForwardsTo dest x y := by
  obtain ⟨route, hfind, hactive⟩ := Option.bind_eq_some_iff.mp h
  split_ifs at hactive with hisActive
  exact ⟨route, hfind, hisActive, Option.some.inj hactive⟩

/-- The routes to node 1 form a cycle of the nodes 2, 4 and 3. -/
theorem not_loopFree_of_overwrittenHop :
    ¬ Throughout (step fun _ => sampleParameters) LoopFree {} overwrittenHopEvents := by
  intro h
  have hexec : (exec (step fun _ => sampleParameters) {} overwrittenHopEvents).map (fun net =>
      [2, 4, 3].map fun x => activeHop ((net.node x).findBestMatchingRoute 1)) =
      .ok [some 4, some 3, some 2] := by
    decide +kernel
  cases hrun : exec (step fun _ => sampleParameters) {} overwrittenHopEvents with
  | error e =>
    rw [hrun] at hexec
    cases hexec
  | ok net =>
    simp only [hrun, Except.map, Except.ok.injEq, List.map_cons, List.map_nil,
      List.cons.injEq, and_true] at hexec
    obtain ⟨htwo, hfour, hthree⟩ := hexec
    apply h.of_exec hrun 1 2
    apply Relation.TransGen.head (forwardsTo_of_activeHop htwo)
    apply Relation.TransGen.head (forwardsTo_of_activeHop hfour)
    exact .single (forwardsTo_of_activeHop hthree)

def sampleRequest : AODVRREQ where
  gratuitousRREPFlag := false
  unknownSeqNumFlag := true
  hopCount := 0
  rreqId := 1
  destAddr := 9
  destSeqNum := 0
  originatorAddr := 1
  originatorSeqNum := 1

/-- A node that has no routes yet may take the request. -/
theorem harmlessRREQ_sampleRequest (hnode : net.node 2 = {}) :
    net.HarmlessRREQ (fun _ => sampleParameters) 2 sampleRequest 1 := by
  have hreplaceable (dest : L3Address) (rank : Rank) : net.Replaceable 2 dest rank := by
    apply replaceable_of_none
    rw [hnode]
    rfl
  have hroute : net.routeBehindPreviousHop (fun _ => sampleParameters) 2 1 1 1 =
      some (createRoute 1 1 false 1 true (net.now + 3000)) := by
    rw [routeBehindPreviousHop, find_updatePreviousHop, if_pos rfl, hnode]
    rfl
  rw [HarmlessRREQ, hnode]
  refine ⟨by decide, by decide, ?_⟩
  have hharmless := hreplaceable 1
  simp only [HarmlessReverseRoute]
  rw [show net.routeBehindPreviousHop (fun _ => sampleParameters) 2 1
    sampleRequest.originatorSeqNum sampleRequest.originatorAddr = _ from hroute]
  have hnumber : ¬ BitVec.slt (1 : Uint32) 1 := by decide
  exact ⟨hnumber, hharmless _, .inl rfl⟩

/-- A request of node 1 reaches node 2. -/
theorem loopFree_of_request : Throughout (step fun _ => sampleParameters) LoopFree {}
    [.datagramPreRoutingHook 1 none 9, .deliver 0 2] := by
  apply loopFree_of_harmless
  refine ⟨trivial, fun net hnet => ⟨fun packet hget _ => ?_, fun _ _ => trivial⟩⟩
  have hnode : net.node 2 = {} := by
    obtain rfl := Except.ok.inj hnet
    rfl
  have hinFlight : net.inFlight = [⟨1, none, 2, .RREQ sampleRequest⟩] := by
    obtain rfl := Except.ok.inj hnet
    rfl
  rw [hinFlight] at hget
  obtain rfl := Option.some.inj hget
  exact harmlessRREQ_sampleRequest hnode

end Network

end Inet.Aodv
