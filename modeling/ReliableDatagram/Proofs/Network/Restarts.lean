/-
Connections that are started anew too late.

A SYN without ACK flag replaces the connection of its receiver, whether it is the
first copy to arrive or a late one, and so does a connect of one's own.  What
the old connection had dispatched, and what it had numbered and not yet seen
acknowledged, is forgotten with it.

For one direction, from a sender to its receiver, this has two sides.

  * Nothing else breaks the promise of exactly-once delivery in order.  Take
    the first moment of a run at which the sender's connection is replaced
    after it took up a payload, or the receiver's after it dispatched one.  Up
    to there the direction is in order; if there is no such moment it is in
    order all through.
  * Connecting early does not help.  Whatever the settings and engines are, if
    the sender can have an engine and the receiver can take DATA, then there is a
    run in which the sender connects once, before it sends anything, and one
    payload is dispatched twice.  The network doubles the SYN and the payload
    and delivers the copies late.

So runs in which both sides connect early keep the promise only where it is
empty.  Without an engine nothing is ever taken up for sending, so every restart
is in time; a receiver that can take no DATA stays idle through every step.

The run of the late copies is carried out step by step on stages.  A stage says of
a network and its log all that matters for one direction, and each of the four
kinds of move that occur has a lemma that leads from stage to stage.
-/
import ReliableDatagram.Proofs.Network.ExactlyOnce

namespace ReliableDatagram

/-! ## New connections -/

theorem LockedEngine.sendData_start {config : Reliability} (h : config.Valid) (payload : Bytes)
    (now : Instant) :
    ∃ l, (start config).sendData payload now = (.ok (.data .first payload), l) := by
  have hwindow := h.firstWindow_within
  have hroom : (start config).isWindowFull = false := by
    rw [isWindowFull, effectiveWindow, CongestionWindow.toNat_effective, decide_eq_false_iff_not,
      Nat.not_le]
    exact Nat.lt_min.mpr ⟨hwindow.pos, Nat.lt_of_lt_of_le hwindow.pos hwindow.le⟩
  exact ⟨_, sendData_of_isVacant hroom rfl payload now⟩

theorem LockedEngine.receive_start_first {config : Reliability}
    (h : config.initialReceive = .first) {payload : Bytes} {p : Packet}
    (hc : p.Carries [payload] 0) :
    ∃ released l, (start config).receive p = (.ok released, l) ∧
      released.map (·.payload) = [payload] := by
  have hlen : [payload].length < 0x80000000 := by
    rw [List.length_singleton]
    decide
  rcases (receives_start h).data hlen hc with ⟨-, hahead, -⟩ | ⟨released, l, hrec, hgot, htook⟩
  · exact absurd hahead (Nat.not_lt_zero _)
  · refine ⟨released, l, hrec, ?_⟩
    rw [List.nil_append] at hgot htook
    cases hreleased : released.map (·.payload) with
    | nil =>
        -- The packet is taken, so it was handed on or is held; the next number never is.
        rw [hreleased] at hgot htook
        rcases htook 0 hc.lt (.inl rfl) with hlt | hhas
        · exact absurd hlt (Nat.lt_irrefl 0)
        · exact absurd hhas (hgot.expects.not_has hlen)
    | cons first rest =>
        have hfront := hgot.front
        rw [hreleased, List.length_cons, List.take_succ_cons, List.take_nil] at hfront
        exact hfront

/-! ## Idle sides -/

namespace Exchange

/-- A side that has handed nothing on and holds nothing back. -/
structure Idle (x : Exchange) (s : Side) : Prop where
  hears : (x.engine s).Receives [] []
  got : x.got s = []

section Idle

variable {x x' : Exchange} {s : Side}

theorem Idle.post (h : x.Idle s) (t : Side) {l : LockedEngine} (packets : List Packet)
    {released : List Packet} (hl : t = s → l.Receives [] [] ∧ released = []) :
    ((x.post t l packets).handed t released).Idle s := by
  rcases t.eq_or_eq_other s with rfl | rfl
  · obtain ⟨hears, rfl⟩ := hl rfl
    rw [handed_nil]
    exact ⟨by simpa using hears, h.got⟩
  · refine ⟨by simpa using h.hears, ?_⟩
    rw [← h.got]
    exact Function.update_of_ne s.ne_other _ _

theorem Idle.post_of_ordering (h : x.Idle s) (t : Side) {l : LockedEngine}
    (packets : List Packet) (hl : l.ordering = (x.engine t).ordering) :
    (x.post t l packets).Idle s := by
  rw [← handed_nil (x.post t l packets) t]
  refine h.post t packets ?_
  rintro rfl
  exact ⟨h.hears.of_ordering hl, rfl⟩

/-- Nothing but DATA gives a side something to hand on. -/
theorem Idle.step {able : Side → PacketKind → Prop} (h : x.Idle s) (hno : ¬ able s .data)
    (hx : Step able x x') : x'.Idle s := by
  cases hx with
  | @send t payload p l _ hsend =>
      have hpost := h.post_of_ordering t [p] (LockedEngine.ordering_of_sendData hsend)
      exact ⟨hpost.hears, hpost.got⟩
  | scan t => exact h.post_of_ordering t _ (LockedEngine.timedOut_frame (x.engine t) x.now).2.1
  | elapse | lose | double => exact ⟨h.hears, h.got⟩
  | @data i t p released l _ _ hable _ =>
      refine Idle.post (x := x.without i) ⟨h.hears, h.got⟩ t.other _ ?_
      rintro rfl
      exact absurd hable hno
  | @refuse i t p error l _ _ hable hrec =>
      rw [← handed_nil ((x.without i).post t.other l []) t.other]
      refine Idle.post (x := x.without i) ⟨h.hears, h.got⟩ t.other _ ?_
      rintro rfl
      exact absurd hable hno
  | @ack i t p _ _ _ =>
      exact Idle.post_of_ordering (x := x.without i) ⟨h.hears, h.got⟩ t.other _
        (LockedEngine.handleAck_frame (x.engine t.other) p x.now).2

theorem Idle.setup {config : Side → Reliability} {restarted : Option Side}
    (hf : ∀ t, (config t).initialReceive = .first) (h : x.Idle s) (hu : x.Usual)
    (hx : Setup config restarted x x') : x'.Idle s := by
  cases hx with
  | connect t =>
      rw [← handed_nil (x.post t _ _) t]
      exact h.post t _ fun _ => ⟨LockedEngine.receives_start (hf t), rfl⟩
  | @syn x i t p released l hi hk ha hrec =>
      have hz := (hu.wire _ (List.mem_of_getElem? hi)).seq_of_syn hk
      rw [LockedEngine.receive_start_syn (hf _) hk ha hz] at hrec
      cases hrec
      exact Idle.post (x := x.without i) ⟨h.hears, h.got⟩ t.other _ fun _ =>
        ⟨LockedEngine.receives_start (hf _), rfl⟩
  | @synAck x i t p released l hi hk ha hrec =>
      refine Idle.post (x := x.without i) ⟨h.hears, h.got⟩ t.other _ ?_
      rintro rfl
      have hz := (hu.wire _ (List.mem_of_getElem? hi)).seq_of_syn hk
      rw [h.hears.synAck (by decide) hk ha hz] at hrec
      cases hrec
      exact ⟨h.hears, rfl⟩

end Idle

end Exchange

namespace Pair

section Restarts

variable {S : Pair} {net : Network} {log : Log} {s : Side} {wire : List (Side × Packet)}
  {l r : LockedEngine} {sent got : List Bytes} {x : Exchange}

/-! ## Where a breach comes from -/

theorem Run.inTime_or_late {allowed : Network → Log → Move → Prop} (run : S.Run allowed net log)
    (s : Side) : S.Run (S.InTime s) net log ∨
      ∃ net₀ log₀ m, S.Run allowed net₀ log₀ ∧ S.Run (S.InTime s) net₀ log₀ ∧
        allowed net₀ log₀ m ∧ S.record net₀ log₀ m <+: log ∧ ¬ S.InTime s net₀ log₀ m := by
  induction run with
  | start => exact .inl .start
  | @move net log m run hm ih =>
      rcases ih with hin | ⟨net₀, log₀, m₀, hrun, hin, hallowed, hfront, hlate⟩
      · by_cases htime : S.InTime s net log m
        · exact .inl (.move m hin htime)
        · exact .inr ⟨net, log, m, run, hin, hm, List.prefix_rfl, htime⟩
      · refine .inr ⟨net₀, log₀, m₀, hrun, hin, hallowed, ?_, hlate⟩
        exact hfront.trans (List.prefix_append _ _)

/-! ## Directions in which nothing gets across -/

/-- Whatever every step of an exchange keeps holds in every run. -/
theorem Run.keeps {allowed : Network → Log → Move → Prop} {P : Exchange → Prop}
    (run : S.Run allowed net log) (hstart : P (.start fun s => (S.config s).reliability))
    (hstep : ∀ {x x'}, P x → Exchange.Step S.Handles x x' → P x')
    (hsetup : ∀ {x x' restarted}, P x → x.Usual →
      Exchange.Setup (fun s => (S.config s).reliability) restarted x x' → P x') :
    ∃ x, S.Shows net log x ∧ x.Usual ∧ P x := by
  induction run with
  | start => exact ⟨_, S.shows_start, Exchange.usual_start, hstart⟩
  | move m _ _ ih =>
      obtain ⟨x, hs, hu, hp⟩ := ih
      obtain ⟨x', hsteps | ⟨_, hset, -⟩, hs'⟩ := hs.play hu m
      · refine ⟨x', hs', hu.steps hsteps, ?_⟩
        clear hs'
        induction hsteps with
        | refl => exact hp
        | tail _ hx ih => exact hstep ih hx
      · exact ⟨x', hs', hu.setup hset, hsetup hp hu hset⟩

theorem Run.shows {allowed : Network → Log → Move → Prop} (run : S.Run allowed net log) :
    ∃ x, S.Shows net log x := by
  obtain ⟨x, hs, -⟩ := run.keeps (P := fun _ => True) trivial (fun _ _ => trivial)
    fun _ _ _ => trivial
  exact ⟨x, hs⟩

theorem Run.idle {allowed : Network → Log → Move → Prop} (run : S.Run allowed net log)
    (hno : ¬ S.Handles s .data) : ∃ x, S.Shows net log x ∧ x.Idle s := by
  have hstart : (Exchange.start fun s => (S.config s).reliability).Idle s :=
    ⟨LockedEngine.receives_start (S.first s), rfl⟩
  obtain ⟨x, hs, -, hidle⟩ := run.keeps (P := (·.Idle s)) hstart (fun h hx => h.step hno hx)
    fun h hu hx => h.setup S.first hu hx
  exact ⟨x, hs, hidle⟩

theorem Run.accepted_eq_nil {allowed : Network → Log → Move → Prop} (run : S.Run allowed net log)
    (hb : ¬ (S.config s).Builds) : log.accepted s = [] := by
  induction run with
  | start => rfl
  | @move net log m run _ ih =>
      obtain ⟨x, hs⟩ := run.shows
      have hquiet (h : Happening) (hno : h.accepted? s = none) :
          Log.accepted (log ++ [h]) s = [] := by
        rw [Log.accepted_append, ih, hno]
        rfl
      cases m with
      | send t payload =>
          by_cases ht : t = s
          · subst ht
            rcases hs.send t payload with ⟨hs', -⟩ | ⟨-, -, -, hbuilds, -⟩
            · exact (hs'.records.accepted t).trans ((hs.records.accepted t).symm.trans ih)
            · exact absurd hbuilds hb
          · refine hquiet _ ?_
            simp only [Happening.accepted?]
            split
            · rename_i hm _
              cases hm
              rw [if_neg ht]
            · rfl
      | _ => exact hquiet _ rfl

theorem Run.inTime_of_not_builds {allowed : Network → Log → Move → Prop}
    (run : S.Run allowed net log) (hb : ¬ (S.config s).Builds) : S.Run (S.InTime s) net log := by
  induction run with
  | start => exact .start
  | move m run _ ih =>
      have hsilent := run.accepted_eq_nil hb
      refine .move m ih ⟨fun _ => hsilent, fun _ => ?_⟩
      have hprefix := dispatched_prefix_of_inTime ih (by rw [hsilent]; decide)
      rw [hsilent] at hprefix
      exact List.prefix_nil.mp hprefix

/-! ## What late copies do -/

/-- A network of which everything is known that matters for the payloads of one side: the wire,
the engines of the side and of its peer, what the side took up and what its peer handed on. -/
structure Stage (S : Pair) (s : Side) (net : Network) (log : Log) (wire : List (Side × Packet))
    (l r : LockedEngine) (sent got : List Bytes) (x : Exchange) : Prop where
  stands : S.Shows net log x
  usual : x.Usual
  wire : x.wire = wire
  sender : x.engine s = l
  receiver : x.engine s.other = r
  sent : x.sent s = sent
  silent : x.sent s.other = []
  got : x.got s.other = got

theorem stage_connect (hb : (S.config s).Builds) :
    ∃ x, S.Stage s (S.play S.start (.connect s)).2.1 (S.record S.start [] (.connect s))
      [(s, .syn .zero)] (.start (S.config s).reliability) (.start (S.config s.other).reliability)
      [] [] x := by
  obtain ⟨x, ⟨-, hno⟩ | rfl, h⟩ := S.shows_start.connect s
  · exact absurd hb hno
  · have hset : Exchange.Setup (fun s => (S.config s).reliability) (some s)
        (.start fun s => (S.config s).reliability) _ := .connect s
    exact ⟨_, h, Exchange.usual_start.setup hset, rfl, by simp, by simp [Exchange.start],
      rfl, rfl, rfl⟩

theorem Stage.double (h : S.Stage s net log wire l r sent got x) (i : Nat) :
    ∃ x, S.Stage s (S.play net (.double i)).2.1 (S.record net log (.double i))
      (wire ++ wire[i]?.toList) l r sent got x :=
  ⟨_, h.stands.double i, h.usual.double i, by rw [h.wire], h.sender, h.receiver, h.sent, h.silent,
    h.got⟩

theorem Stage.deliver_syn (h : S.Stage s net log wire l r sent got x)
    (hserve : S.Serves s.other) {i : Nat} (hi : wire[i]? = some (s, .syn .zero)) :
    ∃ x, S.Stage s (S.play net (.deliver i .none)).2.1 (S.record net log (.deliver i .none))
      (wire.eraseIdx i ++ [(s.other, .synAck .zero .first)]) l
      (.start (S.config s.other).reliability) sent got x := by
  have hx := h.wire ▸ hi
  rcases h.stands.deliver_cases h.usual hx .none with ⟨-, hdamaged⟩ |
    ⟨l', packets, released, hreact, hs, -⟩
  · exact absurd rfl (hdamaged hserve)
  · cases hreact with
    | take hk | refuse hk | ack hk => cases hk
    | synAck _ ha => cases ha
    | syn hk ha hrec =>
        have hstart := LockedEngine.receive_start_syn (S.first s.other) hk ha rfl
        cases hrec.symm.trans hstart
        have hset : Exchange.Setup (fun s => (S.config s).reliability) _ x _ :=
          .syn hx hk ha hstart
        have hu := h.usual.setup hset
        rw [Exchange.handed_nil] at hs hu
        refine ⟨_, hs, hu, ?_, ?_, ?_, h.sent, h.silent, h.got⟩
        · rw [← h.wire]
          rfl
        · simpa using h.sender
        · simp

theorem Stage.send_first
    (h : S.Stage s net log wire (.start (S.config s).reliability) r [] got x)
    (hb : (S.config s).Builds) {payload : Bytes} (hlen : payload.length ≤ maxPayload) :
    ∃ p l x, p.Carries [payload] 0 ∧
      S.Stage s (S.play net (.send s payload)).2.1 (S.record net log (.send s payload))
        (wire ++ [(s, p)]) l r [payload] got x := by
  have hvalid := S.reliability_valid s
  rcases h.stands.send s payload with ⟨-, hrefused⟩ | ⟨p, l, -, -, hsend, hs⟩
  · obtain ⟨l, hsend⟩ := LockedEngine.sendData_start hvalid payload x.now
    have hfull := hrefused hlen hb
    rw [h.sender, hsend] at hfull
    cases hfull
  · have hstep : Exchange.Step (fun _ _ => True) x _ := .send hlen hsend
    rw [h.sender] at hsend
    refine ⟨p, l, _, ?_, hs, h.usual.step hstep, ?_, ?_, ?_, ?_, ?_, h.got⟩
    · exact LockedEngine.carries_of_sendData (LockedEngine.sends_start hvalid) hlen hsend
    · rw [← h.wire]
      rfl
    · simp
    · simpa using h.receiver
    · simp [h.sent]
    · simpa using h.silent

/-- A receiver that expects the first payload dispatches it, whatever it dispatched before. -/
theorem Stage.deliver_first {payload : Bytes}
    (h : S.Stage s net log wire l (.start (S.config s.other).reliability) [payload] got x)
    (hserve : S.Serves s.other) {i : Nat} {p : Packet} (hc : p.Carries [payload] 0)
    (hi : wire[i]? = some (s, p)) :
    ∃ r x, S.Stage s (S.play net (.deliver i .none)).2.1 (S.record net log (.deliver i .none))
      (wire.eraseIdx i ++ [(s.other, .acknowledge p.seq.next)]) l r [payload] (got ++ [payload])
      x := by
  have hx := h.wire ▸ hi
  have hk := hc.kind
  obtain ⟨released, r, hfirst, hone⟩ := LockedEngine.receive_start_first (S.first s.other) hc
  rw [← h.receiver] at hfirst
  rcases h.stands.deliver_cases h.usual hx .none with ⟨-, hdamaged⟩ |
    ⟨r, packets, released, hreact, hs, -⟩
  · exact absurd rfl (hdamaged hserve)
  · cases hreact with
    | ack hk' | syn hk' | synAck hk' =>
        rw [hk] at hk'
        cases hk'
    | refuse _ hrec => cases hrec.symm.trans hfirst
    | take _ hrec =>
        cases hrec.symm.trans hfirst
        have hstep : Exchange.Step (fun _ _ => True) x _ := .data hx hk trivial hrec
        refine ⟨r, _, hs, h.usual.step hstep, ?_, ?_, ?_, h.sent, h.silent, ?_⟩
        · rw [← h.wire]
          rfl
        · simpa using h.sender
        · simp
        · simp [h.got, hone]

/-- A side connects and sends one payload.  The SYN arrives, then the payload, then a copy of the
SYN and a copy of the payload. -/
def lateCopies (s : Side) (payload : Bytes) : List Move :=
  [.connect s, .double 0, .deliver 0 .none, .send s payload, .double 2, .deliver 2 .none,
    .deliver 0 .none, .deliver 1 .none]

theorem allows_lateCopies (S : Pair) (s : Side) (payload : Bytes) :
    S.Allows ConnectsEarly S.start [] (lateCopies s payload) := by
  simp [lateCopies, Allows, ConnectsEarly, Move.connects?, Move.damage]

/-- One payload is dispatched twice, whatever settings and engines the two end points have. -/
theorem dispatched_lateCopies (hb : (S.config s).Builds) (hserve : S.Serves s.other)
    {payload : Bytes} (hlen : payload.length ≤ maxPayload) :
    let log := (S.playAll S.start [] (lateCopies s payload)).2
    log.accepted s = [payload] ∧ log.accepted s.other = [] ∧
      log.dispatched s.other = [payload, payload] := by
  obtain ⟨x, h⟩ := stage_connect hb
  obtain ⟨x, h⟩ := h.double 0
  obtain ⟨x, h⟩ := h.deliver_syn (i := 0) hserve rfl
  obtain ⟨p, l, x, hc, h⟩ := h.send_first hb hlen
  obtain ⟨x, h⟩ := h.double 2
  obtain ⟨r, x, h⟩ := h.deliver_first (i := 2) hserve hc rfl
  obtain ⟨x, h⟩ := h.deliver_syn (i := 0) hserve rfl
  obtain ⟨r, x, h⟩ := h.deliver_first (i := 1) hserve hc rfl
  have hr := h.stands.records
  exact ⟨(hr.accepted s).trans h.sent, (hr.accepted s.other).trans h.silent,
    (hr.dispatched s.other).trans h.got⟩

end Restarts

/-! ## Main result -/

/-- In runs in which both sides connect early, what is dispatched at the other side is the front
of what was sent, in order and once each. -/
def DeliversOnce (S : Pair) (s : Side) : Prop :=
  ∀ net log, S.Run ConnectsEarly net log → (∀ t, (log.accepted t).length < 0x80000000) →
    log.dispatched s.other <+: log.accepted s

/-- A direction is in order up to the first move that starts one of its connections anew too
late.  That both sides connect early does not prevent such a move: then the promise holds only
if nothing gets across. -/
theorem dispatched_prefix_unless_late (S : Pair) (s : Side) :
    (∀ allowed net log, S.Run allowed net log → (log.accepted s).length < 0x80000000 →
      log.dispatched s.other <+: log.accepted s ∨
        ∃ net₀ log₀ m, S.Run allowed net₀ log₀ ∧ log₀.dispatched s.other <+: log₀.accepted s ∧
          allowed net₀ log₀ m ∧ S.record net₀ log₀ m <+: log ∧ ¬ S.InTime s net₀ log₀ m) ∧
      (S.DeliversOnce s ↔ ¬ ((S.config s).Builds ∧ S.Serves s.other)) := by
  refine ⟨?_, ?_, ?_⟩
  · intro allowed net log run hn
    rcases run.inTime_or_late s with hin | ⟨net₀, log₀, m, hrun, hin, hallowed, hfront, hlate⟩
    · exact .inl (dispatched_prefix_of_inTime hin hn)
    · have hfewer : (log₀.accepted s).length ≤ (log.accepted s).length :=
        Nat.le_trans (accepted_le_append log₀ _ s) ((hfront.filterMap _).map _).length_le
      refine .inr ⟨net₀, log₀, m, hrun, ?_, hallowed, hfront, hlate⟩
      exact dispatched_prefix_of_inTime hin (Nat.lt_of_le_of_lt hfewer hn)
  · rintro honce ⟨hb, hserve⟩
    have hempty : ([] : Bytes).length ≤ maxPayload := Nat.zero_le _
    obtain ⟨hsent, hsilent, hgot⟩ := dispatched_lateCopies hb hserve hempty
    have run : S.Run ConnectsEarly _ _ := .playAll _ .start (S.allows_lateCopies s [])
    have hprefix := honce _ _ run <|
      Side.forall_of s (by rw [hsent]; decide) (by rw [hsilent]; decide)
    rw [hsent, hgot] at hprefix
    exact absurd hprefix.length_le (by decide)
  · intro hno net log run hn
    by_cases hb : (S.config s).Builds
    · obtain ⟨x, hs, hidle⟩ := run.idle fun hable : S.Handles s.other .data =>
        hno ⟨hb, hable.serves rfl⟩
      rw [hs.records.dispatched, hidle.got]
      exact List.nil_prefix
    · exact dispatched_prefix_of_inTime (run.inTime_of_not_builds hb) (hn s)

theorem not_deliversOnce_neighbours : ¬ neighbours.DeliversOnce .left := fun honce =>
  (dispatched_prefix_unless_late neighbours .left).2.mp honce ⟨⟨_, rfl⟩, rfl, ⟨_, rfl⟩⟩

/-- Connecting early is not enough: the receiver starts anew after it has dispatched. -/
theorem not_prefix_of_connectsEarly :
    ¬ ∀ (S : Pair) (net : Network) (log : Log), S.Run ConnectsEarly net log →
      (∀ s, (log.accepted s).length < 0x80000000) →
      ∀ s : Side, log.dispatched s.other <+: log.accepted s := by
  intro h
  have run : neighbours.Run ConnectsEarly _ _ :=
    .playAll (lateCopies .left [7]) .start (neighbours.allows_lateCopies .left [7])
  have hn : ∀ s, (Log.accepted (neighbours.playAll neighbours.start []
      (lateCopies .left [7])).2 s).length < 0x80000000 := by
    intro s
    cases s <;> decide +kernel
  exact absurd (h _ _ _ run hn .left) (by decide +kernel)

end Pair

end ReliableDatagram
