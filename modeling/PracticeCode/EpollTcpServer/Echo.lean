import PracticeCode.EpollTcpServer.Outcome

/-!
# The echo of `EpollTcpServer`

`recv_call` writes each packet back with one `write`, and nobody looks at how much of it was
accepted.  `GapFree` says that what a connection accepted is a prefix of what was read from it.  A
short or refused `write` leaves the rest of the packet out, so the stream stays a prefix as long as
nothing is accepted after it (`echo_gapFree`), and has a gap otherwise (`gapRun`).
-/

namespace PracticeCode.EpollTcpServer

open Lib Linux

/-- The bytes the call read from the connection `c`. -/
def Op.received (c : Conn) : Op → List UInt8
  | .read target chunk => if target = some (.sock c) then chunk else []
  | _ => []

/-- The bytes the connection `c` accepted from the call. -/
def Op.written (c : Conn) : Op → List UInt8
  | .write target msg (some n) => if target = some (.sock c) then msg.take n else []
  | _ => []

/-- A `write` of which the connection `c` did not accept the whole packet. -/
def Op.short (c : Conn) : Op → Prop
  | .write target msg res => target = some (.sock c) ∧ res ≠ some msg.length
  | _ => False

instance (c : Conn) : DecidablePred (Op.short c) := fun o => by
  induction o using Op.casesOn <;> unfold Op.short <;> infer_instance

def received (log : List Op) (c : Conn) : List UInt8 := log.flatMap (Op.received c)

def written (log : List Op) (c : Conn) : List UInt8 := log.flatMap (Op.written c)

/-- Every packet of the connection was accepted whole. -/
def Whole (log : List Op) (c : Conn) : Prop := ∀ o ∈ log, ¬ o.short c

instance (log : List Op) (c : Conn) : Decidable (Whole log c) := by unfold Whole; infer_instance

/-- **The echo has no gaps.** -/
def GapFree (s : State) : Prop := ∀ c, written s.log c <+: received s.log c

/-- What the packet that is about to be written goes to. -/
def State.writing (s : State) : Option File :=
  match s.point with
  | .write data _ _ => data.fd.bind s.files
  | _ => none

/-- A `write` is accepted only after all earlier packets were accepted whole. -/
def afterWhole (s : State) : Act → Prop
  | .write (.ok n) => 0 < n →
    match s.writing with
    | some (.sock c) => Whole s.log c
    | _ => True
  | _ => True

instance (s : State) (a : Act) : Decidable (afterWhole s a) := by
  induction a using Act.casesOn with
  | write res =>
    induction res using WriteResult.casesOn with
    | ok n =>
      unfold afterWhole
      generalize s.writing = f
      match f with
      | some (.sock c) => exact inferInstanceAs (Decidable (_ → Whole s.log c))
      | some .std | some .listening | some .epoll | some (.event _) | none =>
        exact inferInstanceAs (Decidable (_ → True))
    | _ => exact isTrue trivial
  | _ => exact isTrue trivial

/-! ## Growing logs -/

section Log

variable {log : List Op} {o : Op} {c : Conn}

@[simp] theorem received_append : received (log ++ [o]) c = received log c ++ o.received c := by
  simp [received]

@[simp] theorem written_append : written (log ++ [o]) c = written log c ++ o.written c := by
  simp [written]

theorem whole_append : Whole (log ++ [o]) c ↔ Whole log c ∧ ¬ o.short c := by
  simp [Whole, or_imp, forall_and]

/-- The call moves no byte of any connection. -/
def Op.Still (o : Op) : Prop := ∀ c, o.received c = [] ∧ o.written c = [] ∧ ¬ o.short c

theorem still_epollWait (f : Option File) : (Op.epollWait f).Still := fun _ => ⟨rfl, rfl, nofun⟩
theorem still_accept (f : Option File) : (Op.accept f).Still := fun _ => ⟨rfl, rfl, nofun⟩
theorem still_callback (data : Packet) : (Op.callback data).Still := fun _ => ⟨rfl, rfl, nofun⟩
theorem still_close (f : Option File) : (Op.close f).Still := fun _ => ⟨rfl, rfl, nofun⟩

theorem still_read (f : Option File) : (Op.read f []).Still := fun _ =>
  ⟨by simp [Op.received], rfl, nofun⟩

end Log

/-! ## The invariant -/

/-- The packet that was read and not offered to `write` yet, and its descriptor. -/
def Point.packet : Point → Option (Packet × Fd)
  | .testCallback data fd _ | .callback data fd _ | .write data fd _ => some (data, fd)
  | _ => none

/-- The bytes of the connection `c` between `read` and `write`. -/
def State.inFlight (s : State) (c : Conn) : List UInt8 :=
  match s.point.packet with
  | some (data, fd) => if s.files fd = some (.sock c) then data.msg else []
  | none => []

structure Echo (s : State) : Prop where
  callback : s.self.recv_callback_ = some .recv_call
  packet : ∀ {data fd}, s.point.packet = some (data, fd) → data.fd = some fd
  whole : ∀ {c}, Whole s.log c → written s.log c ++ s.inFlight c = received s.log c
  gapFree : GapFree s

section Step

variable {s s' : State}

@[simp] theorem inFlight_record {o : Op} {c : Conn} : (s.record o).inFlight c = s.inFlight c := rfl

@[simp] theorem log_record_goto {p : Point} {o : Op} :
    ((s.goto p).record o).log = s.log ++ [o] := rfl

theorem inFlight_of_none {c : Conn} (h : s.point.packet = none) : s.inFlight c = [] := by
  unfold State.inFlight
  rw [h]

theorem inFlight_of_packet {c : Conn} {data : Packet} {fd : Fd}
    (h : s.point.packet = some (data, fd)) :
    s.inFlight c = if s.files fd = some (.sock c) then data.msg else [] := by
  unfold State.inFlight
  rw [h]

theorem Echo.goto {p : Point} (h : Echo s) (hp : p.packet = s.point.packet) : Echo (s.goto p) := by
  refine ⟨h.callback, fun hpk => h.packet (hp ▸ hpk), fun {c} hw => ?_, h.gapFree⟩
  have hfl : (s.goto p).inFlight c = s.inFlight c := by
    unfold State.inFlight
    rw [State.goto, hp]
  rw [hfl]
  exact h.whole hw

/-- A call that moves no byte. -/
theorem Echo.record {o : Op} (h : Echo s) (ho : o.Still) : Echo (s.record o) := by
  refine ⟨h.callback, h.packet, fun {c} hw => ?_, fun c => ?_⟩
  · have := h.whole (whole_append.mp hw).1
    simp only [State.record, received_append, written_append, (ho c).1, (ho c).2.1, List.append_nil]
    exact this
  · simp only [State.record, received_append, written_append, (ho c).1, (ho c).2.1, List.append_nil]
    exact h.gapFree c

/-- Descriptors change while no packet is in flight. -/
theorem Echo.tables {files : Fd → Option File} {interest : Fd → Bool} {conns : ℕ} (h : Echo s)
    (hp : s.point.packet = none) :
    Echo { s with files := files, interest := interest, conns := conns } := by
  refine ⟨h.callback, h.packet, fun {c} hw => ?_, h.gapFree⟩
  have hold := h.whole hw
  have hfl : State.inFlight { s with files := files, interest := interest, conns := conns } c =
      [] := inFlight_of_none hp
  rw [inFlight_of_none hp] at hold
  rw [hfl]
  exact hold

theorem Echo.closeFd {fd : Fd} {p : Point} (h : Echo s) (hp : s.point.packet = none)
    (hp' : p.packet = none) : Echo ((s.closeFd fd).goto p) :=
  ((h.tables hp).record (still_close _)).goto (hp'.trans hp.symm)

/-- `read` puts a packet in flight. -/
theorem Echo.read {fd : Fd} {evs : List Event} {chunk : List UInt8} (h : Echo s)
    (hp : s.point = .read fd evs) :
    Echo ((s.goto (.testCallback ⟨some fd, chunk⟩ fd evs)).record
      (.read (s.files fd) chunk)) := by
  have hnone : s.point.packet = none := by rw [hp]; rfl
  refine ⟨h.callback, ?_, fun {c} hw => ?_, fun c => ?_⟩
  · intro data fd' hpk
    cases hpk
    rfl
  · have hold := h.whole (whole_append.mp hw).1
    have hfl : (s.goto (.testCallback ⟨some fd, chunk⟩ fd evs)).inFlight c =
        (Op.read (s.files fd) chunk).received c := rfl
    have hnil : (Op.read (s.files fd) chunk).written c = [] := rfl
    rw [inFlight_of_none hnone, List.append_nil] at hold
    rw [inFlight_record, hfl, log_record_goto, received_append, written_append, hnil,
      List.append_nil, hold]
  · have hnil : (Op.read (s.files fd) chunk).written c = [] := rfl
    rw [log_record_goto, received_append, written_append, hnil, List.append_nil]
    exact (h.gapFree c).trans (List.prefix_append ..)

/-- **One `write`.**  What is accepted goes on where the earlier packets ended, and what is left
out is followed by nothing. -/
theorem Echo.write {data : Packet} {fd : Fd} {p : Point} {res : Option ℕ} (h : Echo s)
    (hp : s.point.packet = some (data, fd)) (hp' : p.packet = none)
    (hg : ∀ {n c}, res = some n → 0 < n → s.files fd = some (.sock c) → Whole s.log c) :
    Echo ((s.goto p).record (.write (s.files fd) data.msg res)) := by
  have hnil : ∀ c, (Op.write (s.files fd) data.msg res).received c = [] := fun _ => rfl
  have hother : ∀ {c}, s.files fd ≠ some (.sock c) →
      (Op.write (s.files fd) data.msg res).written c = [] := by
    intro c hne
    cases res with
    | none => rfl
    | some n => exact if_neg hne
  refine ⟨h.callback, fun hpk => ?_, fun {c} hw => ?_, fun c => ?_⟩
  · have : p.packet = some _ := hpk
    rw [hp'] at this
    cases this
  · obtain ⟨hw, hlast⟩ := whole_append.mp hw
    have hold := h.whole hw
    rw [inFlight_of_packet hp] at hold
    have hfl : (s.goto p).inFlight c = [] := inFlight_of_none hp'
    rw [inFlight_record, hfl, log_record_goto, received_append, written_append, hnil,
      List.append_nil, List.append_nil, ← hold]
    by_cases e : s.files fd = some (.sock c)
    · -- the packet was accepted whole
      have hres : res = some data.msg.length := by
        by_contra hne
        exact hlast ⟨e, hne⟩
      rw [if_pos e, hres, Op.written, if_pos e, List.take_length]
    · rw [if_neg e, hother e]
  · rw [log_record_goto, received_append, written_append, hnil, List.append_nil]
    by_cases e : s.files fd = some (.sock c)
    · cases res with
      | none => simpa [Op.written] using h.gapFree c
      | some n =>
        rw [Op.written, if_pos e]
        rcases Nat.eq_zero_or_pos n with rfl | hn
        · simpa using h.gapFree c
        · have hold := h.whole (hg rfl hn e)
          rw [inFlight_of_packet hp, if_pos e] at hold
          rw [← hold]
          exact (List.prefix_append_right_inj _).mpr (List.take_prefix ..)
    · rw [hother e, List.append_nil]
      exact h.gapFree c

end Step

theorem init_echo : Echo init :=
  ⟨rfl, nofun, fun _ => rfl, fun _ => List.nil_prefix⟩

/-- **Every step keeps the echo free of gaps**, when nothing is accepted after a short `write`. -/
theorem echo_step {s s' : State} {a : Act} (h : Echo s) (hg : afterWhole s a)
    (hs : step s a = some s') : Echo s' := by
  cases outcome_of_step hs with
  | enter hp | test hp | batchEnd hp | hangup hp | report hp | incoming hp _ | readable hp _ =>
    exact h.goto (by rw [hp]; rfl)
  | getpeername hp | getpeernameFail hp | getfl hp | setfl hp | hasCallback hp =>
    exact h.goto (by rw [hp]; rfl)
  | stop hp => exact h.goto (by rcases hp with hp | hp <;> rw [hp] <;> rfl)
  | clientFail hp => exact h.goto (by rcases hp with hp | hp | hp <;> rw [hp] <;> rfl)
  | terminate hp hc | noCallback hp hc =>
    rw [h.callback] at hc
    cases hc
  | noFd hp hd =>
    rw [h.packet (by rw [hp]; rfl)] at hd
    cases hd
  | epollWait hp _ => exact (h.goto (by rw [hp]; rfl)).record (still_epollWait _)
  | acceptAgain hp => exact (h.goto (by rw [hp]; rfl)).record (still_accept _)
  | acceptError hp => exact (h.goto (by rw [hp])).record (still_accept _)
  | accept hp _ _ =>
    have hnone : s.point.packet = none := by rw [hp]; rfl
    exact Echo.record (Echo.goto (h.tables hnone) hnone.symm) (still_accept _)
  | ctlAdd hp _ =>
    have hnone : s.point.packet = none := by rw [hp]; rfl
    exact Echo.goto (h.tables hnone) hnone.symm
  | close hp | closeClient hp | closeSend hp => exact h.closeFd (by rw [hp]; rfl) rfl
  | readData hp _ => exact h.read hp
  | readAgain hp | readStop hp => exact (h.goto (by rw [hp]; rfl)).record (still_read _)
  | callback hp => exact (h.goto (by rw [hp]; rfl)).record (still_callback _)
  | @write n data sfd fd evs hp hd _ =>
    have hpk : s.point.packet = some (data, fd) := by rw [hp]; rfl
    obtain rfl : sfd = fd := Option.some.inj (hd.symm.trans (h.packet hpk))
    refine h.write hpk rfl fun {n c} hn hpos hf => ?_
    cases hn
    have hwr : s.writing = some (.sock c) := by
      unfold State.writing
      rw [hp]
      simp only [hd, Option.bind_some, hf]
    have := hg hpos
    rwa [hwr] at this
  | @writeAgain data sfd fd evs hp hd | @writeError data sfd fd evs hp hd =>
    have hpk : s.point.packet = some (data, fd) := by rw [hp]; rfl
    obtain rfl : sfd = fd := Option.some.inj (hd.symm.trans (h.packet hpk))
    exact h.write hpk rfl nofun

/-- **The bytes a socket accepted are a prefix of the bytes read from it**, in every run in which
nothing is accepted after a short or refused `write`. -/
theorem echo_gapFree {as : List Act} {s : State} (h : Run step afterWhole init as s) :
    GapFree s := by
  have : Echo s := h.invariant (I := Echo) init_echo fun _ _ _ => echo_step
  exact this.gapFree

/-- The echo of two chunks: the first is accepted whole, the second in part, and the third is
refused. -/
def echoRun : List Act :=
  [.calloc true, .test, .epollWait [(4, .readable)], .dispatch,
    .accept (.ok 5), .getpeername true, .getfl true, .setfl true, .ctlAdd true, .accept .again,
    .dispatch, .test, .epollWait [(5, .readable)], .dispatch,
    .read (.data [1, 2]), .testCallback, .callback, .write (.ok 2),
    .read (.data [3, 4]), .testCallback, .callback, .write (.ok 1),
    .read (.data [5]), .testCallback, .callback, .write .again]

theorem echo_gapFree_short : ∃ s, Run step afterWhole init echoRun s ∧
    (written s.log 0 = [1, 2, 3] ∧ received s.log 0 = [1, 2, 3, 4, 5]) ∧ GapFree s := by
  obtain ⟨s, hr, hp⟩ : ∃ s, Run step afterWhole init echoRun s ∧
      written s.log 0 = [1, 2, 3] ∧ received s.log 0 = [1, 2, 3, 4, 5] :=
    Run.exists_of_exec _ _ (by decide)
  exact ⟨s, hr, hp, echo_gapFree hr⟩

/-! ## Without the guard -/

/-- The send buffer takes one byte of the first packet and has room again for the second. -/
def gapRun : List Act :=
  [.calloc true, .test, .epollWait [(4, .readable)], .dispatch,
    .accept (.ok 5), .getpeername true, .getfl true, .setfl true, .ctlAdd true, .accept .again,
    .dispatch, .test, .epollWait [(5, .readable)], .dispatch,
    .read (.data [1, 2]), .testCallback, .callback, .write (.ok 1),
    .read (.data [3]), .testCallback, .callback, .write (.ok 1)]

/-- **The byte 2 is missing from the echo.** -/
theorem not_gapFree :
    ¬ ∀ as s, Run step (fun s a => lowestFree s a ∧ writable s a) init as s → GapFree s := by
  intro h
  obtain ⟨s, hr, hw, hrecv⟩ : ∃ s,
      Run step (fun s a => lowestFree s a ∧ writable s a) init gapRun s ∧
      written s.log 0 = [1, 3] ∧ received s.log 0 = [1, 2, 3] :=
    Run.exists_of_exec _ _ (by decide)
  have := h _ _ hr 0
  rw [hw, hrecv] at this
  exact absurd this (by decide)

end PracticeCode.EpollTcpServer
