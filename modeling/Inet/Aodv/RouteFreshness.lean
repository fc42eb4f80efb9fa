import Inet.Aodv.HarmlessEvents

/-!
# What requests and replies do to the routes of a node

RFC 3561 compares sequence numbers by the sign of their difference. In section 6.2 it lets a route
be changed by a newer number, or by an equal one if the route is inactive or the new one is shorter.
`KeepsFresh` says that a node has followed this. The handlers follow it under a condition on the
message and the routes that it meets (`keepsFresh_iff`); the route to the previous hop, above all,
has to be one without a valid number.
-/

namespace Inet.Aodv

/-- The sequence number `a` is newer than `b`, whatever has rolled over. -/
def Newer (a b : Uint32) : Prop := 0 < (a - b).toInt
deriving Decidable

theorem not_newer_self (a : Uint32) : ¬ Newer a a := by
  rw [Newer, BitVec.sub_self]
  decide

theorem Newer.not_newer {a b : Uint32} (h : Newer a b) : ¬ Newer b a := by
  intro h'
  simp only [Newer, BitVec.toInt_eq_toNat_cond, BitVec.toNat_sub] at h h'
  have ha := a.isLt
  have hb := b.isLt
  split_ifs at h h' <;> omega

namespace Route

/-- The valid number of the route is newer than the other's, or it is equal and the other route was
inactive or longer. -/
def FresherThan (new old : Route) : Prop :=
  new.hasValidDestNum = true ∧ (Newer new.destSeqNum old.destSeqNum ∨
    new.destSeqNum = old.destSeqNum ∧ (old.isActive = false ∨ new.metric < old.metric))
deriving Decidable

/-- Only the lifetime of the route has been extended; its precursors do not matter. -/
structure Extends (new old : Route) : Prop where
  nextHop : new.nextHop = old.nextHop
  metric : new.metric = old.metric
  destSeqNum : new.destSeqNum = old.destSeqNum
  isActive : new.isActive = old.isActive
  hasValidDestNum : new.hasValidDestNum = old.hasValidDestNum
  lifeTime : old.lifeTime ≤ new.lifeTime

/-- The route may be changed to an active one with a valid number and this data. -/
def Admits (old : Route) (nextHop : L3Address) (hopCount seqNum : Uint32) (lifeTime : SimTime) :
    Prop :=
  Newer seqNum old.destSeqNum ∨ seqNum = old.destSeqNum ∧
    (old.isActive = false ∨ hopCount < old.metric ∨
      nextHop = old.nextHop ∧ hopCount = old.metric ∧ old.lifeTime ≤ lifeTime)

/-- What a route says, its precursors apart. -/
def info (route : Route) : Route := { route with precursorList := [] }

/-- An active route with a valid number and this data. -/
structure Has (route : Route) (nextHop : L3Address) (hopCount seqNum : Uint32)
    (lifeTime : SimTime) : Prop where
  nextHop : route.nextHop = nextHop
  metric : route.metric = hopCount
  destSeqNum : route.destSeqNum = seqNum
  isActive : route.isActive = true
  hasValidDestNum : route.hasValidDestNum = true
  lifeTime : route.lifeTime = lifeTime

variable {new old : Route} {nextHop : L3Address} {hopCount seqNum : Uint32} {lifeTime : SimTime}

theorem Has.fresh_iff (h : new.Has nextHop hopCount seqNum lifeTime)
    (hold : old.hasValidDestNum = true) :
    (new.FresherThan old ∨ new.Extends old) ↔ old.Admits nextHop hopCount seqNum lifeTime := by
  constructor
  · rintro (⟨-, hfresher⟩ | hextends)
    · rw [h.destSeqNum, h.metric] at hfresher
      exact hfresher.imp_right fun ⟨heq, hbetter⟩ => ⟨heq, hbetter.imp_right .inl⟩
    · refine .inr ⟨h.destSeqNum ▸ hextends.destSeqNum, .inr (.inr ⟨?_, ?_, ?_⟩)⟩
      · exact h.nextHop ▸ hextends.nextHop
      · exact h.metric ▸ hextends.metric
      · exact h.lifeTime ▸ hextends.lifeTime
  · rintro (hnewer | ⟨heq, hinactive | hshorter | ⟨hhop, hcount, hlife⟩⟩)
    · exact .inl ⟨h.hasValidDestNum, .inl (by rwa [h.destSeqNum])⟩
    · exact .inl ⟨h.hasValidDestNum, .inr ⟨h.destSeqNum.trans heq, .inl hinactive⟩⟩
    · exact .inl ⟨h.hasValidDestNum, .inr ⟨h.destSeqNum.trans heq, .inr (by rwa [h.metric])⟩⟩
    · cases hactive : old.isActive with
      | false => exact .inl ⟨h.hasValidDestNum, .inr ⟨h.destSeqNum.trans heq, .inl hactive⟩⟩
      | true =>
        refine .inr ⟨h.nextHop.trans hhop, h.metric.trans hcount, h.destSeqNum.trans heq,
          h.isActive.trans hactive.symm, h.hasValidDestNum.trans hold.symm, ?_⟩
        rwa [h.lifeTime]

theorem Extends.refl (route : Route) : route.Extends route := ⟨rfl, rfl, rfl, rfl, rfl, le_refl _⟩

theorem fresh_info :
    (new.info.FresherThan old ∨ new.info.Extends old) ↔ (new.FresherThan old ∨ new.Extends old) :=
  or_congr_right
    ⟨fun h => ⟨h.nextHop, h.metric, h.destSeqNum, h.isActive, h.hasValidDestNum, h.lifeTime⟩,
      fun h => ⟨h.nextHop, h.metric, h.destSeqNum, h.isActive, h.hasValidDestNum, h.lifeTime⟩⟩

/-- A route without a valid number takes the place of no other. -/
theorem not_fresh_of_invalid (hnew : new.hasValidDestNum = false)
    (hold : old.hasValidDestNum = true) : ¬ (new.FresherThan old ∨ new.Extends old) := by
  rintro (⟨hvalid, -⟩ | hextends)
  · rw [hnew] at hvalid
    cases hvalid
  · have heq := hextends.hasValidDestNum
    rw [hnew, hold] at heq
    cases heq

end Route

/-- The destination that a request or a reply tells a sequence number of, and the number. -/
def AODVControlPacket.toldSeqNum : AODVControlPacket → Option (L3Address × Uint32)
  | .RREQ rreq => some (rreq.originatorAddr, rreq.originatorSeqNum)
  | .RREP rrep => some (rrep.destAddr, rrep.destSeqNum)
  | .RERR _ => none
  | .RREPACK => none

/-- Valid numbers give way to fresher information only: of all routes, of the route to the previous
hop to its own number, and of the reverse route to no older request. -/
structure KeepsFresh (node node' : Node) (sourceAddr : L3Address) (packet : AODVControlPacket) :
    Prop where
  fresher : ∀ dest old, node.findBestMatchingRoute dest = some old → old.hasValidDestNum = true →
    ∃ new, node'.findBestMatchingRoute dest = some new ∧ (new.FresherThan old ∨ new.Extends old)
  previousHop : ∀ old new, node.findBestMatchingRoute sourceAddr = some old →
    old.hasValidDestNum = true → node'.findBestMatchingRoute sourceAddr = some new →
      new.destSeqNum = old.destSeqNum ∨ packet.toldSeqNum = some (sourceAddr, new.destSeqNum)
  reverse : ∀ rreq, packet = .RREQ rreq → ∀ old new,
    node.findBestMatchingRoute rreq.originatorAddr = some old → old.hasValidDestNum = true →
      Newer old.destSeqNum rreq.originatorSeqNum →
        node'.findBestMatchingRoute rreq.originatorAddr = some new → new.nextHop = old.nextHop

/-- The route that takes the place of one with a valid number is fresher, or only lives longer. -/
theorem KeepsFresh.fresh_of_find {node node' : Node} {sourceAddr dest : L3Address}
    {packet : AODVControlPacket} {old new : Route} (h : KeepsFresh node node' sourceAddr packet)
    (hold : node.findBestMatchingRoute dest = some old) (hvalid : old.hasValidDestNum = true)
    (hnew : node'.findBestMatchingRoute dest = some new) :
    new.FresherThan old ∨ new.Extends old := by
  obtain ⟨new', hnew', hfresh⟩ := h.fresher dest old hold hvalid
  obtain rfl := Option.some.inj (hnew.symm.trans hnew')
  exact hfresh

section

variable {aodv : AODVParameters} {self sourceAddr destAddr dest : L3Address} {now : SimTime}
  {node node' node'' : Node} {timeToLive : Uint32} {rreq : AODVRREQ} {rrep : AODVRREP}
  {route : Route} {outcome : Result (Node × List UDPPacket)} {packet : AODVControlPacket}

/-- The routes of the two nodes say the same. -/
def SameInfo (node node' : Node) : Prop :=
  ∀ dest, (node'.findBestMatchingRoute dest).map Route.info =
    (node.findBestMatchingRoute dest).map Route.info

theorem SameInfo.refl (node : Node) : SameInfo node node := fun _ => rfl

theorem SameInfo.symm (h : SameInfo node node') : SameInfo node' node := fun dest => (h dest).symm

theorem SameInfo.trans (h : SameInfo node node') (h' : SameInfo node' node'') :
    SameInfo node node'' :=
  fun dest => (h' dest).trans (h dest)

theorem SameInfo.of_routingTable (h : node'.routingTable = node.routingTable) :
    SameInfo node node' :=
  fun dest => by rw [Node.findBestMatchingRoute, Node.findBestMatchingRoute, h]

theorem SameInfo.exists_find (h : SameInfo node node')
    (hfind : node.findBestMatchingRoute dest = some route) :
    ∃ route', node'.findBestMatchingRoute dest = some route' ∧ route'.info = route.info := by
  have heq := h dest
  rw [hfind, Option.map_some, Option.map_eq_some_iff] at heq
  exact heq

theorem sameInfo_addPrecursor {addr : L3Address} :
    SameInfo node (node.modifyRoute destAddr (·.addPrecursor addr)) := by
  intro dest
  rw [Node.find_modifyRoute]
  split_ifs
  · rw [Option.map_map]
    rfl
  · rfl

/-- A part of a handler that succeeds and leaves alone what the routes say. -/
def Succeeds (node : Node) (outcome : Result (Node × List UDPPacket)) : Prop :=
  ∃ node' sent, outcome = .ok (node', sent) ∧ SameInfo node node'

theorem Succeeds.ok {sent : List UDPPacket} (h : SameInfo node node') :
    Succeeds node (.ok (node', sent)) :=
  ⟨node', sent, rfl, h⟩

theorem Succeeds.after (h : Succeeds node' outcome) (hsame : SameInfo node node') :
    Succeeds node outcome := by
  obtain ⟨node'', sent, heq, hsame'⟩ := h
  exact ⟨node'', sent, heq, hsame.trans hsame'⟩

theorem Succeeds.bind (h : Succeeds node outcome)
    {rest : Node × List UDPPacket → Result (Node × List UDPPacket)}
    (hrest : ∀ node' sent, SameInfo node node' → Succeeds node' (rest (node', sent))) :
    Succeeds node (outcome >>= rest) := by
  obtain ⟨node', sent, rfl, hsame⟩ := h
  exact (hrest node' sent hsame).after hsame

/-- A packet with a TTL is sent, and the routes stay. -/
theorem succeeds_sendAODVPacket {sender : Node} {receiver : Option L3Address}
    (httl : timeToLive ≠ 0) (hsame : SameInfo node sender)
    {rest : Node × UDPPacket → Result (Node × List UDPPacket)}
    (hrest : ∀ node' sent, SameInfo node node' → Succeeds node (rest (node', sent))) :
    Succeeds node (sender.sendAODVPacket self now packet receiver timeToLive >>= rest) := by
  rw [Node.sendAODVPacket, assert_of (by simpa using httl), ok_bind]
  refine hrest _ _ (hsame.trans (.of_routingTable ?_))
  split_ifs <;> rfl

theorem sendRREP_succeeds (httl : timeToLive ≠ 0)
    (hfind : node.findBestMatchingRoute destAddr = some route) :
    Succeeds node (node.sendRREP self now rrep destAddr timeToLive) := by
  rw [Node.sendRREP, hfind]
  refine succeeds_sendAODVPacket httl ?_ fun node' sent hsame => .ok hsame
  have hprecursor : SameInfo node (node.modifyRoute destAddr (·.addPrecursor route.nextHop)) :=
    sameInfo_addPrecursor
  refine hprecursor.trans (.of_routingTable ?_)
  split_ifs <;> rfl

theorem sendGRREP_succeeds (httl : timeToLive ≠ 0)
    (hfind : node.findBestMatchingRoute destAddr = some route) :
    Succeeds node (node.sendGRREP self now rrep destAddr timeToLive) := by
  rw [Node.sendGRREP, hfind]
  exact succeeds_sendAODVPacket httl (.refl node) fun node' sent hsame => .ok hsame

theorem replyAsIntermediate_succeeds {destRoute : Route}
    (hfind : node.findBestMatchingRoute rreq.originatorAddr = some route)
    (hdest : node.findBestMatchingRoute rreq.destAddr = some destRoute) :
    Succeeds node (node.replyAsIntermediate self now rreq destRoute sourceAddr) := by
  have hcreated : SameInfo node (node.createIntermediateRREP now rreq destRoute sourceAddr).1 :=
    sameInfo_addPrecursor.trans sameInfo_addPrecursor
  obtain ⟨created, hcreatedRoute, -⟩ := hcreated.exists_find hfind
  refine Succeeds.after ?_ hcreated
  refine Succeeds.bind (sendRREP_succeeds (by decide) hcreatedRoute) fun node' sent hsame => ?_
  dsimp only
  split_ifs
  · obtain ⟨originatorRoute, horiginator, -⟩ := (hcreated.trans hsame).exists_find hfind
    obtain ⟨_, hdest', -⟩ := (hcreated.trans hsame).exists_find hdest
    rw [horiginator]
    exact Succeeds.bind (sendGRREP_succeeds (by decide) hdest') fun _ _ _ => .ok (.refl _)
  · exact .ok (.refl node')

theorem forwardRREQ_succeeds : Succeeds node (node.forwardRREQ self now rreq timeToLive) := by
  rw [Node.forwardRREQ]
  split_ifs with httl
  · refine succeeds_sendAODVPacket ?_ (.refl node) fun node' sent hsame => .ok hsame
    rintro rfl
    exact absurd httl (by decide)
  · exact .ok (.refl node)

theorem answerRREQ_succeeds (hfind : node.findBestMatchingRoute rreq.originatorAddr = some route) :
    Succeeds node (node.answerRREQ aodv self now rreq sourceAddr timeToLive) := by
  rw [Node.answerRREQ]
  split_ifs
  · refine Succeeds.after ?_ (.of_routingTable rfl)
    exact sendRREP_succeeds (by decide) hfind
  · split
    · rename_i destRoute hfresh
      obtain ⟨hdest, -⟩ := Option.filter_eq_some_iff.mp hfresh
      split_ifs
      · exact .ok (.refl node)
      · exact replyAsIntermediate_succeeds hfind hdest
    · exact forwardRREQ_succeeds

theorem acknowledgeRREP_succeeds :
    Succeeds node (node.acknowledgeRREP self now rrep sourceAddr) := by
  rw [Node.acknowledgeRREP]
  split_ifs
  · exact succeeds_sendAODVPacket (by decide) (.refl node) fun node' sent hsame => .ok hsame
  · exact .ok (.refl node)

/-- The lifetime of the route over which a reply is passed on. -/
def Node.extendReverseRoute (aodv : AODVParameters) (now : SimTime) (node : Node)
    (originatorAddr : L3Address) : Node :=
  node.modifyRoute originatorAddr fun route =>
    { route with lifeTime := max (now + aodv.activeRouteTimeout) route.lifeTime }

theorem forwardRREP_succeeds {originatorAddr : L3Address} :
    Succeeds (node.extendReverseRoute aodv now originatorAddr)
      (node.forwardRREP aodv self now rrep originatorAddr sourceAddr) := by
  rw [Node.forwardRREP]
  split
  · rename_i hnone
    refine .ok fun dest => ?_
    rw [Node.extendReverseRoute, Node.find_modifyRoute]
    split_ifs with hdest
    · rw [hdest, hnone]
      rfl
    · rfl
  · refine Succeeds.bind acknowledgeRREP_succeeds fun acked acks _ => ?_
    refine succeeds_sendAODVPacket (by decide) ?_ fun node' sent hsame => .ok hsame
    split
    · exact sameInfo_addPrecursor.trans sameInfo_addPrecursor
    · exact sameInfo_addPrecursor

theorem KeepsFresh.of_sameInfo {before : Node} (h : KeepsFresh before node sourceAddr packet)
    (hsame : SameInfo node node') : KeepsFresh before node' sourceAddr packet where
  fresher dest old hold hvalid := by
    obtain ⟨new, hnew, hfresh⟩ := h.fresher dest old hold hvalid
    obtain ⟨new', hnew', hinfo⟩ := hsame.exists_find hnew
    refine ⟨new', hnew', ?_⟩
    rwa [← Route.fresh_info, hinfo, Route.fresh_info]
  previousHop old new' hold hvalid hnew' := by
    obtain ⟨new, hnew, hinfo⟩ := hsame.symm.exists_find hnew'
    have hnumber : new.info.destSeqNum = new'.info.destSeqNum := by rw [hinfo]
    exact hnumber ▸ h.previousHop old new hold hvalid hnew
  reverse rreq hrreq old new' hold hvalid holder hnew' := by
    obtain ⟨new, hnew, hinfo⟩ := hsame.symm.exists_find hnew'
    have hhop : new.info.nextHop = new'.info.nextHop := by rw [hinfo]
    exact hhop.symm.trans (h.reverse rreq hrreq old new hold hvalid holder hnew)

theorem KeepsFresh.iff_of_sameInfo {before : Node} (hsame : SameInfo node node') :
    KeepsFresh before node' sourceAddr packet ↔ KeepsFresh before node sourceAddr packet :=
  ⟨fun h => h.of_sameInfo hsame.symm, fun h => h.of_sameInfo hsame⟩

end

section

variable (aodv : AODVParameters) (self : L3Address) (now : SimTime) (node : Node) {seqNum : Uint32}

/-- The new lifetime of the reverse route of a request whose hop count has been incremented. -/
def reverseLifeTime (hopCount : Uint32) : SimTime :=
  max now (now + 2 * aodv.netTraversalTime - (2 * hopCount).toNat * aodv.nodeTraversalTime)

/-- The request, whose hop count has been incremented, updates the route to the previous hop, which
is its originator, after the first update of that route. -/
def AODVRREQ.updatesPreviousHop (rreq : AODVRREQ) : Bool :=
  rreq.unknownSeqNumFlag || rreq.hopCount.slt 1

/-- A request whose hop count has been incremented, and that is no duplicate, does not make the
routes to the previous hop and to its originator worse. -/
structure BringsFresh (rreq : AODVRREQ) (sourceAddr : L3Address) : Prop where
  previousHop : ∀ old, node.findBestMatchingRoute sourceAddr = some old →
    old.hasValidDestNum = true → sourceAddr = rreq.originatorAddr ∧ rreq.updatesPreviousHop = true ∧
      old.Admits sourceAddr rreq.hopCount rreq.originatorSeqNum
        (reverseLifeTime aodv now rreq.hopCount)
  reverse : sourceAddr ≠ rreq.originatorAddr →
    ∀ old, node.findBestMatchingRoute rreq.originatorAddr = some old →
      old.hasValidDestNum = true → rreq.updates old = true →
        old.Admits sourceAddr rreq.hopCount (maxInt old.destSeqNum rreq.originatorSeqNum)
          (reverseLifeTime aodv now rreq.hopCount) ∧
        (Newer old.destSeqNum rreq.originatorSeqNum → sourceAddr = old.nextHop)

/-- The request is ignored; or it is a duplicate, and the route to the previous hop has no valid
number to lose; or it brings fresher information. -/
def FreshRREQ (rreq : AODVRREQ) (sourceAddr : L3Address) : Prop :=
  if (node.blacklist sourceAddr).isSome then True
  else if node.isDuplicate aodv now rreq then
    ∀ old, node.findBestMatchingRoute sourceAddr = some old → old.hasValidDestNum = false
  else BringsFresh aodv now node { rreq with hopCount := rreq.hopCount + 1 } sourceAddr

variable {aodv now node} {rreq : AODVRREQ} {sourceAddr dest : L3Address} {route old : Route}

theorem find_updateReverseRoute_self
    (hfind : node.findBestMatchingRoute rreq.originatorAddr = some route)
    (h : rreq.updates route = true) :
    (node.updateReverseRoute aodv now rreq sourceAddr).findBestMatchingRoute rreq.originatorAddr =
      some (updateRoutingTable route sourceAddr rreq.hopCount true
        (maxInt route.destSeqNum rreq.originatorSeqNum) true
        (reverseLifeTime aodv now rreq.hopCount)) := by
  rw [Node.updateReverseRoute, hfind]
  dsimp only
  rw [if_pos h, Node.find_putRoute, if_pos rfl]
  rfl

theorem updateRoutingTable_has (route : Route) (nextHop : L3Address) (hopCount seqNum : Uint32)
    (lifeTime : SimTime) :
    (updateRoutingTable route nextHop hopCount true seqNum true lifeTime).Has nextHop hopCount
      seqNum lifeTime :=
  ⟨rfl, rfl, rfl, rfl, rfl, rfl⟩

theorem maxInt_self (a : Uint32) : maxInt a a = a := ite_self a

/-- The route to the previous hop after its first update. -/
def Node.demoted (aodv : AODVParameters) (now : SimTime) (node : Node) (sourceAddr : L3Address)
    (seqNum : Uint32) : Route :=
  createOrUpdate (node.findBestMatchingRoute sourceAddr) sourceAddr 1 false seqNum
    (now + aodv.activeRouteTimeout)

theorem demoted_invalid : (node.demoted aodv now sourceAddr seqNum).hasValidDestNum = false := by
  rw [Node.demoted]
  cases node.findBestMatchingRoute sourceAddr <;> rfl

/-- The demoted route keeps the number that a valid one has lost. -/
theorem demoted_destSeqNum : (node.demoted aodv now sourceAddr seqNum).destSeqNum = seqNum := by
  rw [Node.demoted]
  cases node.findBestMatchingRoute sourceAddr <;> rfl

theorem demoted_metric : (node.demoted aodv now sourceAddr seqNum).metric = 1 := by
  rw [Node.demoted]
  cases node.findBestMatchingRoute sourceAddr <;> rfl

theorem updates_demoted_iff :
    rreq.updates (node.demoted aodv now sourceAddr rreq.originatorSeqNum) = true ↔
      rreq.updatesPreviousHop = true := by
  have hself : ¬ rreq.originatorSeqNum.slt rreq.originatorSeqNum = true := by
    rw [BitVec.slt_iff_toInt_lt]
    exact lt_irrefl _
  rw [AODVRREQ.updates, AODVRREQ.updatesPreviousHop, demoted_destSeqNum, demoted_metric]
  simp only [eq_false_of_ne_true hself, beq_self_eq_true, Bool.true_and, Bool.false_or,
    Bool.or_eq_true]
  exact or_comm

variable {after : Node} {hopCount : Uint32}

/-- The request arrives over another node than its originator. -/
theorem keepsFresh_iff_of_ne (hne : sourceAddr ≠ rreq.originatorAddr)
    (hprevious : after.findBestMatchingRoute sourceAddr =
      some (node.demoted aodv now sourceAddr rreq.originatorSeqNum))
    (hreverse : ∀ old, node.findBestMatchingRoute rreq.originatorAddr = some old →
      after.findBestMatchingRoute rreq.originatorAddr =
        some (if { rreq with hopCount }.updates old then
          updateRoutingTable old sourceAddr hopCount true
            (maxInt old.destSeqNum rreq.originatorSeqNum) true (reverseLifeTime aodv now hopCount)
        else old))
    (hother : ∀ dest, sourceAddr ≠ dest → rreq.originatorAddr ≠ dest →
      after.findBestMatchingRoute dest = node.findBestMatchingRoute dest) :
    KeepsFresh node after sourceAddr (.RREQ rreq) ↔
      BringsFresh aodv now node { rreq with hopCount } sourceAddr := by
  constructor
  · intro h
    constructor
    · intro old hold hvalid
      exact absurd (h.fresh_of_find hold hvalid hprevious)
        (Route.not_fresh_of_invalid demoted_invalid hvalid)
    · intro _ old hold hvalid hupdates
      have hafter := hreverse old hold
      rw [if_pos hupdates] at hafter
      refine ⟨?_, fun holder => h.reverse rreq rfl old _ hold hvalid holder hafter⟩
      exact ((updateRoutingTable_has ..).fresh_iff hvalid).mp (h.fresh_of_find hold hvalid hafter)
  · intro h
    have hno : ∀ old, node.findBestMatchingRoute sourceAddr = some old →
        ¬ old.hasValidDestNum = true :=
      fun old hold hvalid => hne (h.previousHop old hold hvalid).1
    constructor
    · intro dest old hold hvalid
      by_cases hdest : sourceAddr = dest
      · subst hdest
        exact absurd hvalid (hno old hold)
      by_cases hdest' : rreq.originatorAddr = dest
      · subst hdest'
        refine ⟨_, hreverse old hold, ?_⟩
        split_ifs with hupdates
        · exact ((updateRoutingTable_has ..).fresh_iff hvalid).mpr
            (h.reverse hne old hold hvalid hupdates).1
        · exact .inr (.refl old)
      · exact ⟨old, (hother dest hdest hdest').trans hold, .inr (.refl old)⟩
    · intro old _ hold hvalid
      exact absurd hvalid (hno old hold)
    · rintro rreq' hrreq old new hold hvalid holder hnew
      obtain rfl := AODVControlPacket.RREQ.inj hrreq
      obtain rfl := Option.some.inj ((hreverse old hold).symm.trans hnew)
      split_ifs with hupdates
      · exact (h.reverse hne old hold hvalid hupdates).2 holder
      · rfl

/-- The request arrives from its originator: the route that it updates is the one that has just
lost its number. -/
theorem keepsFresh_iff_of_originator (hreverse : after.findBestMatchingRoute rreq.originatorAddr =
      some (if { rreq with hopCount }.updatesPreviousHop then
        updateRoutingTable (node.demoted aodv now rreq.originatorAddr rreq.originatorSeqNum)
          rreq.originatorAddr hopCount true rreq.originatorSeqNum true
          (reverseLifeTime aodv now hopCount)
      else node.demoted aodv now rreq.originatorAddr rreq.originatorSeqNum))
    (hother : ∀ dest, rreq.originatorAddr ≠ dest →
      after.findBestMatchingRoute dest = node.findBestMatchingRoute dest) :
    KeepsFresh node after rreq.originatorAddr (.RREQ rreq) ↔
      BringsFresh aodv now node { rreq with hopCount } rreq.originatorAddr := by
  constructor
  · intro h
    refine ⟨fun old hold hvalid => ⟨rfl, ?_⟩, fun hne => absurd rfl hne⟩
    have hfresh := h.fresh_of_find hold hvalid hreverse
    split_ifs at hfresh with hupdates
    · exact ⟨hupdates, ((updateRoutingTable_has ..).fresh_iff hvalid).mp hfresh⟩
    · exact absurd hfresh (Route.not_fresh_of_invalid demoted_invalid hvalid)
  · intro h
    have hself : ∀ old, node.findBestMatchingRoute rreq.originatorAddr = some old →
        old.hasValidDestNum = true → ∃ new : Route,
          after.findBestMatchingRoute rreq.originatorAddr = some new ∧
          new.Has rreq.originatorAddr hopCount rreq.originatorSeqNum
            (reverseLifeTime aodv now hopCount) := by
      intro old hold hvalid
      have hupdates := (h.previousHop old hold hvalid).2.1
      rw [if_pos hupdates] at hreverse
      exact ⟨_, hreverse, updateRoutingTable_has ..⟩
    constructor
    · intro dest old hold hvalid
      by_cases hdest : rreq.originatorAddr = dest
      · subst hdest
        obtain ⟨new, hnew, hhas⟩ := hself old hold hvalid
        exact ⟨new, hnew, (hhas.fresh_iff hvalid).mpr (h.previousHop old hold hvalid).2.2⟩
      · exact ⟨old, (hother dest hdest).trans hold, .inr (.refl old)⟩
    · intro old new hold hvalid hnew
      obtain ⟨new', hnew', hhas⟩ := hself old hold hvalid
      obtain rfl := Option.some.inj (hnew'.symm.trans hnew)
      right
      rw [hhas.destSeqNum]
      rfl
    · rintro rreq' hrreq old new hold hvalid holder hnew
      obtain rfl := AODVControlPacket.RREQ.inj hrreq
      obtain ⟨-, -, hnewer | ⟨heq, -⟩⟩ := h.previousHop old hold hvalid
      · exact absurd holder hnewer.not_newer
      · rw [show rreq.originatorSeqNum = old.destSeqNum from heq] at holder
        exact absurd holder (not_newer_self _)

/-- The first lines of both handlers take the valid number of the previous hop. -/
theorem keepsFresh_updatePreviousHop_iff {packet : AODVControlPacket} :
    KeepsFresh node (node.updatePreviousHop aodv now sourceAddr seqNum) sourceAddr packet ↔
      ∀ old, node.findBestMatchingRoute sourceAddr = some old → old.hasValidDestNum = false := by
  have hfind : ∀ dest, (node.updatePreviousHop aodv now sourceAddr seqNum).findBestMatchingRoute
      dest = if sourceAddr = dest then some (node.demoted aodv now sourceAddr seqNum)
        else node.findBestMatchingRoute dest := fun dest => find_updatePreviousHop
  constructor
  · intro h old hold
    by_contra hvalid
    rw [Bool.not_eq_false] at hvalid
    have hdemoted := (hfind sourceAddr).trans (if_pos rfl)
    exact Route.not_fresh_of_invalid demoted_invalid hvalid (h.fresh_of_find hold hvalid hdemoted)
  · intro h
    have hkeep : ∀ dest old, node.findBestMatchingRoute dest = some old →
        old.hasValidDestNum = true →
          (node.updatePreviousHop aodv now sourceAddr seqNum).findBestMatchingRoute dest =
            some old := by
      intro dest old hold hvalid
      rw [hfind, if_neg, hold]
      rintro rfl
      rw [h old hold] at hvalid
      cases hvalid
    constructor
    · exact fun dest old hold hvalid => ⟨old, hkeep dest old hold hvalid, .inr (.refl old)⟩
    · intro old new hold hvalid hnew
      obtain rfl := Option.some.inj ((hkeep _ old hold hvalid).symm.trans hnew)
      exact .inl rfl
    · intro rreq _ old new hold hvalid _ hnew
      obtain rfl := Option.some.inj ((hkeep _ old hold hvalid).symm.trans hnew)
      rfl

theorem KeepsFresh.refl (node : Node) (packet : AODVControlPacket) :
    KeepsFresh node node sourceAddr packet where
  fresher _ old hold _ := ⟨old, hold, .inr (.refl old)⟩
  previousHop old new hold _ hnew := by
    obtain rfl := Option.some.inj (hold.symm.trans hnew)
    exact .inl rfl
  reverse _ _ old new hold _ _ hnew := by
    obtain rfl := Option.some.inj (hold.symm.trans hnew)
    rfl

theorem exists_reverseRoute (node : Node) (rreq : AODVRREQ) :
    ∃ route, (node.updateReverseRoute aodv now rreq sourceAddr).findBestMatchingRoute
      rreq.originatorAddr = some route := by
  cases hfind : node.findBestMatchingRoute rreq.originatorAddr with
  | none =>
    rw [Node.updateReverseRoute, hfind]
    exact ⟨_, Node.find_putRoute.trans (if_pos rfl)⟩
  | some route =>
    by_cases hupdates : rreq.updates route = true
    · exact ⟨_, find_updateReverseRoute_self hfind hupdates⟩
    · rw [find_updateReverseRoute_of_not hfind hupdates]
      exact ⟨route, hfind⟩

/-- The reverse route of a request, where there has been a route. -/
theorem find_updateReverseRoute_eq
    (hfind : node.findBestMatchingRoute rreq.originatorAddr = some old) :
    (node.updateReverseRoute aodv now rreq sourceAddr).findBestMatchingRoute rreq.originatorAddr =
      some (if rreq.updates old then
        updateRoutingTable old sourceAddr rreq.hopCount true
          (maxInt old.destSeqNum rreq.originatorSeqNum) true
          (reverseLifeTime aodv now rreq.hopCount)
      else old) := by
  split_ifs with hupdates
  · exact find_updateReverseRoute_self hfind hupdates
  · rw [find_updateReverseRoute_of_not hfind hupdates, hfind]

theorem find_updateReverseRoute_demoted {hopped : Node}
    (hfind : hopped.findBestMatchingRoute rreq.originatorAddr =
      some (node.demoted aodv now rreq.originatorAddr rreq.originatorSeqNum)) :
    (hopped.updateReverseRoute aodv now rreq rreq.originatorAddr).findBestMatchingRoute
        rreq.originatorAddr =
      some (if rreq.updatesPreviousHop then
        updateRoutingTable (node.demoted aodv now rreq.originatorAddr rreq.originatorSeqNum)
          rreq.originatorAddr rreq.hopCount true rreq.originatorSeqNum true
          (reverseLifeTime aodv now rreq.hopCount)
      else node.demoted aodv now rreq.originatorAddr rreq.originatorSeqNum) := by
  rw [find_updateReverseRoute_eq hfind, demoted_destSeqNum, maxInt_self]
  simp only [updates_demoted_iff]

/-- A node handles every request, and keeps to fresher information just in case the request is
ignored or brings it. -/
theorem handleRREQ_keepsFresh_iff (self : L3Address) (timeToLive : Uint32) :
    ∃ outcome, node.handleRREQ aodv self now rreq sourceAddr timeToLive = .ok outcome ∧
      (KeepsFresh node outcome.1 sourceAddr (.RREQ rreq) ↔
        FreshRREQ aodv now node rreq sourceAddr) := by
  rw [Node.handleRREQ, FreshRREQ]
  by_cases hblack : (node.blacklist sourceAddr).isSome = true
  · rw [if_pos hblack, if_pos hblack]
    exact ⟨_, rfl, iff_true_intro (.refl node _)⟩
  rw [if_neg hblack, if_neg hblack]
  have hduplicate : (node.updatePreviousHop aodv now sourceAddr rreq.originatorSeqNum).isDuplicate
      aodv now rreq = node.isDuplicate aodv now rreq := rfl
  dsimp only
  rw [hduplicate]
  by_cases hdup : node.isDuplicate aodv now rreq = true
  · rw [if_pos hdup, if_pos hdup]
    exact ⟨_, rfl, keepsFresh_updatePreviousHop_iff⟩
  rw [if_neg hdup, if_neg hdup]
  set rreq' : AODVRREQ := { rreq with hopCount := rreq.hopCount + 1 }
  set hopped : Node := { node.updatePreviousHop aodv now sourceAddr rreq.originatorSeqNum with
    rreqsArrivalTime := Function.update (node.updatePreviousHop aodv now sourceAddr
      rreq.originatorSeqNum).rreqsArrivalTime rreq.rreqId (some now) }
  have hhopped : ∀ dest, hopped.findBestMatchingRoute dest =
      if sourceAddr = dest then some (node.demoted aodv now sourceAddr rreq.originatorSeqNum)
      else node.findBestMatchingRoute dest := fun dest => find_updatePreviousHop
  obtain ⟨route, hroute⟩ : ∃ route, (hopped.updateReverseRoute aodv now rreq'
      sourceAddr).findBestMatchingRoute rreq.originatorAddr = some route :=
    exists_reverseRoute hopped rreq'
  obtain ⟨node', sent, hanswer, hsame⟩ : Succeeds (hopped.updateReverseRoute aodv now rreq'
      sourceAddr) ((hopped.updateReverseRoute aodv now rreq' sourceAddr).answerRREQ aodv self now
        rreq' sourceAddr timeToLive) := answerRREQ_succeeds hroute
  refine ⟨(node', sent), hanswer, (KeepsFresh.iff_of_sameInfo hsame).trans ?_⟩
  have hkeeps : ∀ dest, rreq.originatorAddr ≠ dest → (hopped.updateReverseRoute aodv now rreq'
      sourceAddr).findBestMatchingRoute dest = hopped.findBestMatchingRoute dest :=
    fun dest hdest => find_updateReverseRoute_of_ne hdest
  by_cases horiginator : sourceAddr = rreq.originatorAddr
  · subst horiginator
    refine keepsFresh_iff_of_originator ?_ fun dest hdest => ?_
    · refine find_updateReverseRoute_demoted ?_
      exact (hhopped _).trans (if_pos rfl)
    · rw [hkeeps dest hdest, hhopped, if_neg hdest]
  · refine keepsFresh_iff_of_ne horiginator ?_ ?_ ?_
    · rw [hkeeps sourceAddr (Ne.symm horiginator), hhopped, if_pos rfl]
    · intro old hold
      refine find_updateReverseRoute_eq ?_
      exact ((hhopped _).trans (if_neg horiginator)).trans hold
    · intro dest hdest hdest'
      rw [hkeeps dest hdest', hhopped, if_neg hdest]

end

section

variable (aodv : AODVParameters) (self : L3Address) (now : SimTime) (node : Node)
  {taken : Route → Prop}

/-- The lifetime of the forward route of a reply. If it is also the route to the originator, it is
extended when the reply is passed on. -/
def forwardLifeTime (rrep : AODVRREP) (originatorAddr : L3Address) : SimTime :=
  if self ≠ originatorAddr ∧ rrep.destAddr = originatorAddr then
    max (now + aodv.activeRouteTimeout) (now + rrep.lifeTime)
  else now + rrep.lifeTime

/-- A reply whose hop count has been incremented replaces a forward route. -/
def Taken (rrep : AODVRREP) (originatorAddr : L3Address) (old : Route) : Prop :=
  rrep.updates old = true ∨
    self = originatorAddr ∧ node.hasOngoingRouteDiscovery rrep.destAddr = true

/-- The previous hop has a valid number only if it is the destination of the reply, and a reply that
replaces the forward route brings fresher information. -/
def FreshReply (rrep : AODVRREP) (originatorAddr sourceAddr : L3Address) : Prop :=
  (∀ old, node.findBestMatchingRoute sourceAddr = some old → old.hasValidDestNum = true →
    sourceAddr = rrep.destAddr) ∧
  ∀ old, node.findBestMatchingRoute rrep.destAddr = some old → old.hasValidDestNum = true →
    sourceAddr = rrep.destAddr ∨ Taken self node rrep originatorAddr old →
      old.Admits sourceAddr rrep.hopCount rrep.destSeqNum
        (forwardLifeTime aodv self now rrep originatorAddr)

/-- A Hello message or a reply does not make the routes of the node worse. -/
def FreshRREP (rrep : AODVRREP) (sourceAddr : L3Address) : Prop :=
  match rrep.originatorAddr with
  | none => ∀ old, node.findBestMatchingRoute rrep.destAddr = some old →
      old.hasValidDestNum = true → old.Admits rrep.destAddr 1 rrep.destSeqNum
          (max old.lifeTime (now + aodv.allowedHelloLoss.toNat * aodv.helloInterval))
  | some originatorAddr =>
    FreshReply aodv self now node { rrep with hopCount := rrep.hopCount + 1 } originatorAddr
      sourceAddr

variable {aodv self now node} {rrep : AODVRREP} {sourceAddr originatorAddr dest : L3Address}
  {after : Node} {old new route : Route} {hopCount : Uint32} {lifeTime : SimTime}

theorem keepsFresh_hello_iff :
    KeepsFresh node (node.handleHelloMessage aodv now rrep) sourceAddr (.RREP rrep) ↔
      ∀ old, node.findBestMatchingRoute rrep.destAddr = some old → old.hasValidDestNum = true →
        old.Admits rrep.destAddr 1 rrep.destSeqNum
          (max old.lifeTime (now + aodv.allowedHelloLoss.toNat * aodv.helloInterval)) := by
  have hfind : ∀ old, node.findBestMatchingRoute rrep.destAddr = some old → ∃ new : Route,
      (node.handleHelloMessage aodv now rrep).findBestMatchingRoute rrep.destAddr = some new ∧
      new.Has rrep.destAddr 1 rrep.destSeqNum
        (max old.lifeTime (now + aodv.allowedHelloLoss.toNat * aodv.helloInterval)) := by
    intro old hold
    rw [Node.handleHelloMessage, hold]
    exact ⟨_, Node.find_putRoute.trans (if_pos rfl), updateRoutingTable_has ..⟩
  have hother : ∀ dest, rrep.destAddr ≠ dest →
      (node.handleHelloMessage aodv now rrep).findBestMatchingRoute dest =
        node.findBestMatchingRoute dest :=
    fun dest hdest => Node.find_putRoute.trans (if_neg hdest)
  constructor
  · intro h old hold hvalid
    obtain ⟨new, hnew, hhas⟩ := hfind old hold
    exact (hhas.fresh_iff hvalid).mp (h.fresh_of_find hold hvalid hnew)
  · intro h
    constructor
    · intro dest old hold hvalid
      by_cases hdest : rrep.destAddr = dest
      · subst hdest
        obtain ⟨new, hnew, hhas⟩ := hfind old hold
        exact ⟨new, hnew, (hhas.fresh_iff hvalid).mpr (h old hold hvalid)⟩
      · exact ⟨old, (hother dest hdest).trans hold, .inr (.refl old)⟩
    · intro old new hold _ hnew
      by_cases hdest : rrep.destAddr = sourceAddr
      · subst hdest
        obtain ⟨new', hnew', hhas⟩ := hfind old hold
        obtain rfl := Option.some.inj (hnew'.symm.trans hnew)
        right
        rw [hhas.destSeqNum]
        rfl
      · obtain rfl := Option.some.inj (((hother _ hdest).trans hold).symm.trans hnew)
        exact .inl rfl
    · intro rreq hrreq
      cases hrreq

/-- What a reply makes of the table: the previous hop loses its number, unless it is the destination
of the reply, the forward route is replaced or stays, and other routes stay, all up to an extended
lifetime. -/
structure Replied (node after : Node) (rrep : AODVRREP) (sourceAddr : L3Address)
    (taken : Route → Prop) (lifeTime : SimTime) : Prop where
  previousHop : sourceAddr ≠ rrep.destAddr → ∃ new,
    after.findBestMatchingRoute sourceAddr = some new ∧ new.hasValidDestNum = false
  replaced : ∀ old, node.findBestMatchingRoute rrep.destAddr = some old →
    sourceAddr = rrep.destAddr ∨ taken old → ∃ new : Route,
      after.findBestMatchingRoute rrep.destAddr = some new ∧
      new.Has sourceAddr rrep.hopCount rrep.destSeqNum lifeTime
  kept : ∀ dest old, node.findBestMatchingRoute dest = some old → sourceAddr ≠ dest →
    (rrep.destAddr = dest → ¬ taken old) → ∃ new : Route,
      after.findBestMatchingRoute dest = some new ∧ new.Extends old

theorem Replied.keepsFresh_reply
    (h : Replied node after { rrep with hopCount } sourceAddr taken lifeTime) :
    KeepsFresh node after sourceAddr (.RREP rrep) ↔
      (∀ old, node.findBestMatchingRoute sourceAddr = some old → old.hasValidDestNum = true →
        sourceAddr = rrep.destAddr) ∧
      ∀ old, node.findBestMatchingRoute rrep.destAddr = some old → old.hasValidDestNum = true →
        sourceAddr = rrep.destAddr ∨ taken old →
          old.Admits sourceAddr hopCount rrep.destSeqNum lifeTime := by
  constructor
  · intro hfresh
    refine ⟨fun old hold hvalid => ?_, fun old hold hvalid htaken => ?_⟩
    · by_contra hne
      obtain ⟨new, hnew, hinvalid⟩ := h.previousHop hne
      exact Route.not_fresh_of_invalid hinvalid hvalid (hfresh.fresh_of_find hold hvalid hnew)
    · obtain ⟨new, hnew, hhas⟩ := h.replaced old hold htaken
      exact (hhas.fresh_iff hvalid).mp (hfresh.fresh_of_find hold hvalid hnew)
  · rintro ⟨hprevious, hforward⟩
    constructor
    · intro dest old hold hvalid
      by_cases htaken : rrep.destAddr = dest ∧ (sourceAddr = rrep.destAddr ∨ taken old)
      · obtain ⟨rfl, htaken⟩ := htaken
        obtain ⟨new, hnew, hhas⟩ := h.replaced old hold htaken
        exact ⟨new, hnew, (hhas.fresh_iff hvalid).mpr (hforward old hold hvalid htaken)⟩
      · have hne : sourceAddr ≠ dest := by
          rintro rfl
          have heq := hprevious old hold hvalid
          exact htaken ⟨heq.symm, .inl heq⟩
        obtain ⟨new, hnew, hextends⟩ := h.kept dest old hold hne fun hdest htake =>
          htaken ⟨hdest, .inr htake⟩
        exact ⟨new, hnew, .inr hextends⟩
    · intro old new hold hvalid hnew
      have heq := hprevious old hold hvalid
      subst heq
      obtain ⟨new', hnew', hhas⟩ := h.replaced old hold (.inl rfl)
      obtain rfl := Option.some.inj (hnew'.symm.trans hnew)
      right
      rw [hhas.destSeqNum]
      rfl
    · intro rreq hrreq
      cases hrreq

theorem Route.Has.extend (h : new.Has sourceAddr hopCount rrep.destSeqNum lifeTime)
    (lifetime : SimTime) :
    Route.Has { new with lifeTime := max lifetime new.lifeTime } sourceAddr hopCount
      rrep.destSeqNum (max lifetime lifeTime) :=
  ⟨h.nextHop, h.metric, h.destSeqNum, h.isActive, h.hasValidDestNum,
    congrArg (max lifetime) h.lifeTime⟩

theorem Route.Extends.extend (h : new.Extends old) (lifetime : SimTime) :
    Route.Extends { new with lifeTime := max lifetime new.lifeTime } old :=
  ⟨h.nextHop, h.metric, h.destSeqNum, h.isActive, h.hasValidDestNum,
    h.lifeTime.trans (le_max_right _ _)⟩

theorem Replied.congr {taken' : Route → Prop}
    (h : Replied node after rrep sourceAddr taken lifeTime)
    (htaken : ∀ old, taken old ↔ taken' old) {lifeTime' : SimTime} (hlife : lifeTime = lifeTime') :
    Replied node after rrep sourceAddr taken' lifeTime' := by
  have heq : taken = taken' := funext fun old => propext (htaken old)
  rwa [← heq, ← hlife]

/-- The two updates of the table. -/
theorem replied_updateForwardRoute {seqNum : Uint32} :
    Replied node ((node.updatePreviousHop aodv now sourceAddr seqNum).updateForwardRoute now rrep
      sourceAddr) rrep sourceAddr (fun old => rrep.updates old = true) (now + rrep.lifeTime) := by
  set hopped := node.updatePreviousHop aodv now sourceAddr seqNum
  have hfind : ∀ dest, hopped.findBestMatchingRoute dest =
      if sourceAddr = dest then some (node.demoted aodv now sourceAddr seqNum)
      else node.findBestMatchingRoute dest := fun dest => find_updatePreviousHop
  have hother : ∀ dest, rrep.destAddr ≠ dest →
      (hopped.updateForwardRoute now rrep sourceAddr).findBestMatchingRoute dest =
        hopped.findBestMatchingRoute dest := fun dest hdest => find_updateForwardRoute_of_ne hdest
  have hreplaced : ∀ r, hopped.findBestMatchingRoute rrep.destAddr = some r →
      rrep.updates r = true →
      (hopped.updateForwardRoute now rrep sourceAddr).findBestMatchingRoute rrep.destAddr =
        some (updateRoutingTable r sourceAddr rrep.hopCount true rrep.destSeqNum true
          (now + rrep.lifeTime)) := by
    intro r hr hupdates
    simp only [Node.updateForwardRoute, hr, if_pos hupdates]
    exact Node.find_putRoute.trans (if_pos rfl)
  constructor
  · intro hne
    refine ⟨node.demoted aodv now sourceAddr seqNum, ?_, demoted_invalid⟩
    rw [hother sourceAddr hne.symm, hfind, if_pos rfl]
  · intro old hold htaken
    by_cases hsource : sourceAddr = rrep.destAddr
    · refine ⟨_, hreplaced _ ((hfind _).trans (if_pos hsource)) ?_, updateRoutingTable_has ..⟩
      rw [AODVRREP.updates, demoted_invalid]
      rfl
    · refine ⟨_, hreplaced old ?_ (htaken.resolve_left hsource), updateRoutingTable_has ..⟩
      exact ((hfind _).trans (if_neg hsource)).trans hold
  · intro dest old hold hne hnot
    have hkept : hopped.findBestMatchingRoute dest = some old :=
      ((hfind _).trans (if_neg hne)).trans hold
    refine ⟨old, ?_, .refl old⟩
    by_cases hdest : rrep.destAddr = dest
    · subst hdest
      simp only [Node.updateForwardRoute, hkept, if_neg (hnot rfl)]
    · rw [hother dest hdest, hkept]

/-- Passing the reply on extends the lifetime of the route to its originator. -/
theorem Replied.extendReverseRoute (h : Replied node after rrep sourceAddr taken lifeTime) :
    Replied node (after.extendReverseRoute aodv now originatorAddr) rrep sourceAddr taken
      (if rrep.destAddr = originatorAddr then max (now + aodv.activeRouteTimeout) lifeTime
        else lifeTime) := by
  have hfind : ∀ dest new, after.findBestMatchingRoute dest = some new →
      (after.extendReverseRoute aodv now originatorAddr).findBestMatchingRoute dest =
        some (if dest = originatorAddr then
          { new with lifeTime := max (now + aodv.activeRouteTimeout) new.lifeTime } else new) := by
    intro dest new hnew
    rw [Node.extendReverseRoute, Node.find_modifyRoute, hnew]
    split_ifs <;> rfl
  constructor
  · intro hne
    obtain ⟨new, hnew, hinvalid⟩ := h.previousHop hne
    refine ⟨_, hfind _ _ hnew, ?_⟩
    split_ifs
    · exact hinvalid
    · exact hinvalid
  · intro old hold htaken
    obtain ⟨new, hnew, hhas⟩ := h.replaced old hold htaken
    refine ⟨_, hfind _ _ hnew, ?_⟩
    split_ifs
    · exact hhas.extend _
    · exact hhas
  · intro dest old hold hne hnot
    obtain ⟨new, hnew, hextends⟩ := h.kept dest old hold hne hnot
    refine ⟨_, hfind _ _ hnew, ?_⟩
    split_ifs
    · exact hextends.extend _
    · exact hextends

/-- The originator takes a reply that it waits for. -/
theorem Replied.completeRouteDiscovery
    (h : Replied node after rrep sourceAddr taken (now + rrep.lifeTime)) :
    Replied node (after.completeRouteDiscovery now rrep sourceAddr) rrep sourceAddr
      (fun old => taken old ∨ after.hasOngoingRouteDiscovery rrep.destAddr = true)
      (now + rrep.lifeTime) := by
  by_cases hongoing : after.hasOngoingRouteDiscovery rrep.destAddr = true
  · have hother : ∀ dest, rrep.destAddr ≠ dest →
        (after.completeRouteDiscovery now rrep sourceAddr).findBestMatchingRoute dest =
          after.findBestMatchingRoute dest :=
      fun dest hdest => find_completeRouteDiscovery_of_ne hdest
    have hreplaced : ∀ r, after.findBestMatchingRoute rrep.destAddr = some r →
        (after.completeRouteDiscovery now rrep sourceAddr).findBestMatchingRoute rrep.destAddr =
          some (updateRoutingTable r sourceAddr rrep.hopCount true rrep.destSeqNum true
            (now + rrep.lifeTime)) := by
      intro r hr
      rw [Node.completeRouteDiscovery, if_pos hongoing]
      refine (Node.find_modifyRoute.trans (if_pos rfl)).trans ?_
      rw [hr]
      rfl
    constructor
    · intro hne
      rw [hother sourceAddr hne.symm]
      exact h.previousHop hne
    · intro old hold _
      obtain ⟨r, hr⟩ : ∃ r, after.findBestMatchingRoute rrep.destAddr = some r := by
        by_cases htaken : sourceAddr = rrep.destAddr ∨ taken old
        · obtain ⟨r, hr, -⟩ := h.replaced old hold htaken
          exact ⟨r, hr⟩
        · rw [not_or] at htaken
          obtain ⟨r, hr, -⟩ := h.kept rrep.destAddr old hold htaken.1 fun _ => htaken.2
          exact ⟨r, hr⟩
      exact ⟨_, hreplaced r hr, updateRoutingTable_has ..⟩
    · intro dest old hold hne hnot
      have hdest : rrep.destAddr ≠ dest := fun hdest => hnot hdest (.inr hongoing)
      rw [hother dest hdest]
      exact h.kept dest old hold hne fun heq => absurd heq hdest
  · rw [Node.completeRouteDiscovery, if_neg hongoing]
    exact h.congr (fun old => (or_iff_left hongoing).symm) rfl

theorem freshRREP_reply (h : rrep.originatorAddr = some originatorAddr) :
    FreshRREP aodv self now node rrep sourceAddr =
      FreshReply aodv self now node { rrep with hopCount := rrep.hopCount + 1 } originatorAddr
        sourceAddr := by
  rw [FreshRREP, h]

/-- A node handles every reply, and keeps to fresher information just in case the reply brings
it. -/
theorem handleRREP_keepsFresh_iff (rrep : AODVRREP) (sourceAddr : L3Address) :
    ∃ outcome, node.handleRREP aodv self now rrep sourceAddr = .ok outcome ∧
      (KeepsFresh node outcome.1 sourceAddr (.RREP rrep) ↔
        FreshRREP aodv self now node rrep sourceAddr) := by
  rw [Node.handleRREP]
  split
  · rename_i hhello
    rw [FreshRREP, hhello]
    exact ⟨_, rfl, keepsFresh_hello_iff⟩
  · rename_i originatorAddr horiginator
    rw [freshRREP_reply horiginator]
    set rrep' : AODVRREP := { rrep with hopCount := rrep.hopCount + 1 }
    set forwarded := (node.updatePreviousHop aodv now sourceAddr
      rrep.originatorSeqNum).updateForwardRoute now rrep' sourceAddr with hforwarded
    have hreplied : Replied node forwarded rrep' sourceAddr
        (fun old => rrep'.updates old = true) (now + rrep'.lifeTime) := replied_updateForwardRoute
    by_cases hself : self = originatorAddr
    · rw [if_neg (not_not.mpr hself)]
      refine ⟨_, rfl, ?_⟩
      have hongoing : forwarded.hasOngoingRouteDiscovery rrep'.destAddr =
          node.hasOngoingRouteDiscovery rrep'.destAddr := by
        rw [Node.hasOngoingRouteDiscovery, hforwarded, updateForwardRoute_waitForRREPTimers]
        rfl
      have hcompleted := hreplied.completeRouteDiscovery
      rw [hongoing] at hcompleted
      refine Replied.keepsFresh_reply (hcompleted.congr (fun old => ?_) ?_)
      · rw [Taken]
        exact or_congr_right (and_iff_right hself).symm
      · exact (if_neg fun h => h.1 hself).symm
    · rw [if_pos hself]
      obtain ⟨node', sent, hforward, hsame⟩ : Succeeds
          (forwarded.extendReverseRoute aodv now originatorAddr)
          (forwarded.forwardRREP aodv self now rrep' originatorAddr sourceAddr) :=
        forwardRREP_succeeds
      refine ⟨(node', sent), hforward, (KeepsFresh.iff_of_sameInfo hsame).trans ?_⟩
      refine Replied.keepsFresh_reply (hreplied.extendReverseRoute.congr (fun old => ?_) ?_)
      · rw [Taken]
        exact (or_iff_left fun h => hself h.1).symm
      · rw [forwardLifeTime]
        simp only [ne_eq, hself, not_false_eq_true, true_and]

end

/-- Whatever a node knows, a request or a reply changes the routes with valid numbers to fresher
information only, just in case it is ignored or brings such information. -/
theorem keepsFresh_iff (aodv : AODVParameters) (self : L3Address) (now : SimTime) (node : Node)
    (sourceAddr : L3Address) :
    (∀ rreq timeToLive, ∃ outcome,
      node.handleRREQ aodv self now rreq sourceAddr timeToLive = .ok outcome ∧
        (KeepsFresh node outcome.1 sourceAddr (.RREQ rreq) ↔
          FreshRREQ aodv now node rreq sourceAddr)) ∧
    ∀ rrep, ∃ outcome, node.handleRREP aodv self now rrep sourceAddr = .ok outcome ∧
      (KeepsFresh node outcome.1 sourceAddr (.RREP rrep) ↔
        FreshRREP aodv self now node rrep sourceAddr) :=
  ⟨fun _ timeToLive => handleRREQ_keepsFresh_iff self timeToLive,
    fun rrep => handleRREP_keepsFresh_iff rrep sourceAddr⟩

open Network (sampleParameters sampleRequest)

/-- A node that knows the number 7 of its neighbor 2. -/
def knowingNode : Node := ({} : Node).putRoute 2 (createRoute 2 1 true 7 true 5000)

/-- A request of node 5. -/
def foreignRequest : AODVRREQ := { sampleRequest with originatorAddr := 5, originatorSeqNum := 3 }

/-- A reply with a number of node 2 that is older, and larger as an unsigned one. -/
def staleReply : AODVRREP where
  hopCount := 4
  destAddr := 2
  destSeqNum := 7 + 2147483649
  originatorAddr := some 6
  lifeTime := 6000

/-- Over its neighbor the request puts the number 3 of node 5 in the place of the number 7, and the
reply puts the older number there. -/
theorem not_keepsFresh_of_request :
    (∃ outcome, knowingNode.handleRREQ sampleParameters 1 10 foreignRequest 2 2 = .ok outcome ∧
      (outcome.1.findBestMatchingRoute 2).map (fun route =>
        (route.destSeqNum, route.hasValidDestNum)) = some (3, false) ∧
      ¬ KeepsFresh knowingNode outcome.1 2 (.RREQ foreignRequest)) ∧
    ∃ outcome, knowingNode.handleRREP sampleParameters 1 10 staleReply 3 = .ok outcome ∧
      (outcome.1.findBestMatchingRoute 2).map (fun route => (route.nextHop, route.destSeqNum)) =
        some (3, 2147483656) ∧
      ¬ KeepsFresh knowingNode outcome.1 3 (.RREP staleReply) := by
  have hknown : knowingNode.findBestMatchingRoute 2 =
      some (createRoute 2 1 true 7 true 5000) := by decide
  constructor
  · obtain ⟨outcome, hrun, hiff⟩ := @handleRREQ_keepsFresh_iff sampleParameters 10 knowingNode
      foreignRequest 2 1 2
    refine ⟨outcome, hrun, ?_, mt hiff.mp fun h => ?_⟩
    · have hroute : (knowingNode.handleRREQ sampleParameters 1 10 foreignRequest 2 2).map
          (fun outcome => (outcome.1.findBestMatchingRoute 2).map fun route =>
            (route.destSeqNum, route.hasValidDestNum)) = .ok (some (3, false)) := by
        decide +kernel
      rw [hrun] at hroute
      exact Except.ok.inj hroute
    · rw [FreshRREQ, if_neg (by decide), if_neg (by decide)] at h
      exact absurd (h.previousHop _ hknown rfl).1 (by decide)
  · obtain ⟨outcome, hrun, hiff⟩ := @handleRREP_keepsFresh_iff sampleParameters 1 10 knowingNode
      staleReply 3
    refine ⟨outcome, hrun, ?_, mt hiff.mp fun h => ?_⟩
    · have hroute : (knowingNode.handleRREP sampleParameters 1 10 staleReply 3).map
          (fun outcome => (outcome.1.findBestMatchingRoute 2).map fun route =>
            (route.nextHop, route.destSeqNum)) = .ok (some (3, 2147483656)) := by
        decide +kernel
      rw [hrun] at hroute
      exact Except.ok.inj hroute
    · obtain ⟨-, hforward⟩ := h
      obtain hnewer | ⟨heq, -⟩ := hforward _ hknown rfl (.inr (.inl (by decide)))
      · exact absurd hnewer (by decide)
      · exact absurd heq (by decide)

end Inet.Aodv
