import PracticeCode.Server31.Frame
import PracticeCode.Server31.Lifetime
import Mathlib.Data.List.TakeWhile

/-!
# The bytes of the messages of server 3.1

`data_handler_by_worker` makes its message of the buffer alone, as a C string.

* `exact_iff`: the message is what `recv` returned, and made of bytes of the buffer, exactly if the
  chunk has no zero byte and leaves room for one;
* `carried_of_run`: the queues and the two other handlers pass on the messages as they are;
* `fidelity_iff`: the same for whole runs, with a record of what each `recv` returned.
-/

namespace PracticeCode.Server31

open Lib Linux

/-! ## A string from the buffer -/

/-- The 1024 bytes after `bzero` and `recv`. -/
def buffer (chunk : List UInt8) : List UInt8 := chunk ++ List.replicate (1024 - chunk.length) 0

section Buffer

variable {chunk beyond : List UInt8}

/-- With a zero in the buffer, the bytes past its end do not matter. -/
theorem cstring_of_mem (h : 0 ∈ buffer chunk) :
    cstring chunk beyond = (buffer chunk).takeWhile (· ≠ 0) := by
  have hne : ¬ ((buffer chunk).takeWhile (· ≠ 0)).length = (buffer chunk).length := fun he => by
    have hall := List.takeWhile_eq_self_iff.mp
      ((List.takeWhile_prefix (· ≠ (0 : UInt8))).eq_of_length he)
    exact absurd (hall 0 h) (by decide)
  show (buffer chunk ++ beyond).takeWhile (· ≠ 0) = _
  rw [List.takeWhile_append, if_neg hne]

/-- **When the string is the chunk**, and is read from the buffer. -/
theorem exact_iff (hlen : chunk.length ≤ 1024) :
    cstring chunk beyond = chunk ∧ 0 ∈ buffer chunk ↔ 0 ∉ chunk ∧ chunk.length < 1024 := by
  constructor
  · rintro ⟨hc, hmem⟩
    have hno : 0 ∉ chunk := fun h0 => by
      rw [← hc] at h0
      exact absurd (List.mem_takeWhile_imp h0) (by decide)
    refine ⟨hno, ?_⟩
    rcases List.mem_append.mp hmem with h0 | h0
    · exact absurd h0 hno
    · have := (List.mem_replicate.mp h0).1
      omega
  · rintro ⟨hno, hlt⟩
    obtain ⟨k, hk⟩ : ∃ k, 1024 - chunk.length = k + 1 := ⟨1024 - chunk.length - 1, by omega⟩
    have hbuf : buffer chunk = chunk ++ 0 :: List.replicate k 0 := by
      rw [buffer, hk, List.replicate_succ]
    have hmem : 0 ∈ buffer chunk := by simp [hbuf]
    refine ⟨?_, hmem⟩
    have hpos : ∀ b ∈ chunk, decide (b ≠ 0) = true := fun b hb =>
      decide_eq_true fun h0 => hno (h0 ▸ hb)
    rw [cstring_of_mem hmem, hbuf, List.takeWhile_append_of_pos hpos]
    simp

end Buffer

/-! ## Where the messages are -/

def Op.carries : Op → Option Msg
  | .recv _ msg | .pushReq _ msg | .send _ _ msg _ => some msg
  | _ => none

def Worker.carries : Worker → Option Msg
  | .run _ (.hold msg) => some msg
  | _ => none

def Reactor.carries : Reactor → Option Msg
  | .data _ _ _ (.push msg) _ => some msg
  | .rsp _ _ _ (.send msg) _ => some msg
  | _ => none

/-- A message that a handler has made, pushed, forwarded or passed to `send`. -/
inductive Carried (s : State) (msg : Msg) : Prop
  | log {o : Op} : o ∈ s.log → o.carries = some msg → Carried s msg
  | request {c : Conn} : msg ∈ s.req_queue c → Carried s msg
  | worker {x : Worker} : x ∈ s.workers → x.carries = some msg → Carried s msg
  | response {c : Conn} : msg ∈ s.rsp_queue c → Carried s msg
  | reactor : s.reactor.carries = some msg → Carried s msg

/-- What a `recv` returned, and the message made of it. -/
structure Build where
  chunk : List UInt8
  msg : Msg

/-- The message that a step makes. -/
def builds (s : State) : Act → List Build
  | .recv n beyond =>
    match s.reactor with
    | .data _ cfd _ .recv _ =>
      match s.kernel.recv cfd n with
      | (.data c chunk, _) => [⟨chunk, ⟨c, (received s.log c).length, cstring chunk beyond⟩⟩]
      | _ => []
    | _ => []
  | _ => []

section Step

variable {s s' : State} {a : Act} {msg : Msg}

theorem mem_builds {b : Build} (hs : step s a = some s') (hb : b ∈ builds s a) :
    (∃ beyond, b.msg.text = cstring b.chunk beyond) ∧ b.chunk.length ≤ 1024 := by
  cases a with
  | recv n beyond =>
    simp only [builds] at hb
    split at hb
    · rename_i rev cfd rspfd evs hr
      have hn : n ≤ 1024 := by
        simp only [step, reactorStep, hr, data_handler_by_worker,
          Option.ite_none_right_eq_some] at hs
        exact hs.1.2
      split at hb
      · rename_i c chunk k hk
        obtain rfl := List.mem_singleton.mp hb
        obtain ⟨-, -, hchunk, -⟩ := Kernel.recv_eq_data hk
        refine ⟨⟨beyond, rfl⟩, ?_⟩
        show chunk.length ≤ 1024
        rw [hchunk]
        exact (List.length_take_le ..).trans hn
      · cases hb
    · cases hb
  | _ => cases hb

/-- What a state carries, when its log, its queues and its threads carry nothing new. -/
theorem Carried.of_parts (h : Carried s' msg)
    (hlog : ∀ o ∈ s'.log, o.carries = some msg → o ∈ s.log ∨ Carried s msg)
    (hreq : ∀ c, msg ∈ s'.req_queue c → Carried s msg)
    (hw : ∀ x ∈ s'.workers, x.carries = some msg → x ∈ s.workers ∨ Carried s msg)
    (hrsp : ∀ c, msg ∈ s'.rsp_queue c → Carried s msg)
    (hr : s'.reactor.carries = some msg → Carried s msg) : Carried s msg := by
  cases h with
  | log ho hm => exact (hlog _ ho hm).elim (fun ho => .log ho hm) id
  | request hm => exact hreq _ hm
  | worker hx hm => exact (hw _ hx hm).elim (fun hx => .worker hx hm) id
  | response hm => exact hrsp _ hm
  | reactor hm => exact hr hm

/-- A step that leaves the queues, the workers and the log alone. -/
theorem Carried.of_same (h : Carried s' msg) (hlog : s'.log = s.log)
    (hreq : s'.req_queue = s.req_queue) (hw : s'.workers = s.workers)
    (hrsp : s'.rsp_queue = s.rsp_queue)
    (hr : s'.reactor.carries = some msg → Carried s msg) : Carried s msg :=
  h.of_parts (fun _ ho _ => .inl (hlog ▸ ho)) (fun _ hm => .request (hreq ▸ hm))
    (fun _ hx _ => .inl (hw ▸ hx)) (fun _ hm => .response (hrsp ▸ hm)) hr

/-- A new entry of the log. -/
theorem log_append {o o' : Op} (ho : o ∈ s.log ++ [o']) (hc : o.carries = some msg)
    (hnew : o'.carries = some msg → Carried s msg) : o ∈ s.log ∨ Carried s msg := by
  rcases List.mem_append.mp ho with ho | ho
  · exact .inl ho
  · obtain rfl := List.mem_singleton.mp ho
    exact .inr (hnew hc)

/-- A new place of a worker. -/
theorem worker_set {w : ℕ} {x x' : Worker} (hx : x ∈ s.workers.set w x')
    (hc : x.carries = some msg) (hnew : x'.carries = some msg → Carried s msg) :
    x ∈ s.workers ∨ Carried s msg := by
  rcases List.mem_or_eq_of_mem_set hx with hx | rfl
  · exact .inl hx
  · exact .inr (hnew hc)

theorem mem_update {f : Conn → List Msg} {q c : Conn} {l : List Msg}
    (h : msg ∈ Function.update f q l c) : msg ∈ l ∨ msg ∈ f c := by
  rw [Function.update_apply] at h
  split at h
  · exact .inl h
  · exact .inr h

/-- A message that is appended to a queue, or taken from one. -/
theorem mem_update_append {f : Conn → List Msg} {q c : Conn} {m : Msg}
    (h : msg ∈ Function.update f q (f q ++ [m]) c) : (∃ c, msg ∈ f c) ∨ m = msg := by
  rcases mem_update h with h | h
  · rcases List.mem_append.mp h with h | h
    · exact .inl ⟨q, h⟩
    · exact .inr (List.mem_singleton.mp h).symm
  · exact .inl ⟨c, h⟩

theorem mem_update_tail {f : Conn → List Msg} {q c : Conn} {m : Msg} {rest : List Msg}
    (hf : f q = m :: rest) (h : msg ∈ Function.update f q rest c) : ∃ c, msg ∈ f c := by
  rcases mem_update h with h | h
  · exact ⟨q, hf ▸ List.mem_cons_of_mem _ h⟩
  · exact ⟨c, h⟩

/-- **A step carries no message that was not carried before**, but for the one that it makes. -/
theorem carried_of_step (hs : step s a = some s') (h : Carried s' msg) :
    Carried s msg ∨ ∃ b ∈ builds s a, b.msg = msg := by
  have hrequest : ∀ c, msg ∈ s.req_queue c → Carried s msg := fun _ => .request
  have hresponse : ∀ c, msg ∈ s.rsp_queue c → Carried s msg := fun _ => .response
  have hreactor : s.reactor.carries = some msg → Carried s msg := .reactor
  cases outcome_of_step hs with
  | @recvData n beyond rev cfd rspfd evs c chunk k hr hk =>
    have hb : builds s (.recv n beyond) =
        [⟨chunk, ⟨c, (received s.log c).length, cstring chunk beyond⟩⟩] := by simp [builds, hr, hk]
    rw [hb]
    by_cases he : (⟨c, (received s.log c).length, cstring chunk beyond⟩ : Msg) = msg
    · exact .inr ⟨_, List.mem_singleton.mpr rfl, he⟩
    · refine .inl (h.of_parts (fun o ho hm => log_append ho hm fun hm => ?_)
        hrequest (fun _ hx _ => .inl hx) hresponse fun hm => ?_)
      · exact absurd (Option.some.inj hm) he
      · exact absurd (Option.some.inj hm) he
  | @pushReq rev cfd rspfd m evs r q hr hh hq =>
    have hold : ∀ {m'}, m = m' → Carried s m' := fun e => .reactor (by rw [hr, ← e]; rfl)
    refine .inl (h.of_parts (fun o ho hm => log_append ho hm fun hm => ?_) (fun c hm => ?_)
      (fun _ hx _ => .inl hx) hresponse nofun)
    · exact hold (Option.some.inj hm)
    · rcases mem_update_append hm with ⟨c, hm⟩ | e
      · exact .request hm
      · exact hold e
  | @shiftReq w rev r q m rest hw hh hq hm =>
    have hold : ∀ {c}, msg ∈ s.req_queue c → Carried s msg := fun hm => .request hm
    refine .inl (h.of_parts (fun _ ho _ => .inl ho) (fun c hc => ?_)
      (fun x hx hc => worker_set hx hc fun e => ?_) hresponse hreactor)
    · obtain ⟨c, hc⟩ := mem_update_tail hm hc
      exact hold hc
    · obtain rfl := Option.some.inj e
      exact hold (hm ▸ List.mem_cons_self)
  | @pushRsp w rev m r q hw hh hq =>
    have hold : ∀ {m'}, m = m' → Carried s m' := fun e =>
      .worker (List.mem_of_getElem? hw) (congrArg some e)
    refine .inl (h.of_parts (fun _ ho _ => .inl ho) hrequest
      (fun x hx hc => worker_set hx hc nofun) (fun c hm => ?_) hreactor)
    rcases mem_update_append hm with ⟨c, hm⟩ | e
    · exact .response hm
    · exact hold e
  | @shiftRsp rev cfd evfd evs r q m rest hr hh hq hm =>
    refine .inl (h.of_parts (fun _ ho _ => .inl ho) hrequest (fun _ hx _ => .inl hx)
      (fun c hc => ?_) fun e => ?_)
    · obtain ⟨c, hc⟩ := mem_update_tail hm hc
      exact .response hc
    · obtain rfl := Option.some.inj e
      exact .response (hm ▸ List.mem_cons_self)
  | @send rev cfd evfd m evs res hr =>
    refine .inl (h.of_parts (fun o ho hm => log_append ho hm fun hm => ?_) hrequest
      (fun _ hx _ => .inl hx) hresponse nofun)
    exact .reactor (by rw [hr]; exact hm)
  | rspEmpty hr =>
    exact .inl (h.of_parts (fun o ho hm => log_append ho hm nofun) hrequest
      (fun _ hx _ => .inl hx) hresponse nofun)
  | reqEmpty hw | write hw =>
    exact .inl (h.of_parts (fun o ho hm => log_append ho hm nofun) hrequest
      (fun x hx hc => worker_set hx hc nofun) hresponse hreactor)
  | pop hw =>
    exact .inl (h.of_parts (fun _ ho _ => .inl ho) hrequest
      (fun x hx hc => worker_set hx hc nofun) hresponse hreactor)
  | exit => exact .inl (h.of_parts (fun _ ho _ => .inl ho) hrequest nofun
      hresponse nofun)
  | connect | clientSend | clientClose => exact .inl (h.of_same rfl rfl rfl rfl hreactor)
  | _ => exact .inl (h.of_same rfl rfl rfl rfl nofun)

end Step

/-! ## Runs -/

/-- **The contract of the payload**: every message is what `recv` returned, read from the buffer,
and every message that is pushed, forwarded or sent is one of them. -/
structure Fidelity (p : State × List Build) : Prop where
  built : ∀ b ∈ p.2, b.msg.text = b.chunk ∧ 0 ∈ buffer b.chunk
  carried : ∀ msg, Carried p.1 msg → ∃ b ∈ p.2, b.msg = msg ∧ msg.text = b.chunk

/-- What every run keeps: the messages are the C strings of the chunks. -/
structure Origin (p : State × List Build) : Prop where
  built : ∀ b ∈ p.2, (∃ beyond, b.msg.text = cstring b.chunk beyond) ∧ b.chunk.length ≤ 1024
  carried : ∀ msg, Carried p.1 msg → ∃ b ∈ p.2, b.msg = msg

theorem init_origin (n : ℕ) : Origin (init n, []) where
  built := nofun
  carried msg h := by
    cases h with
    | log ho _ => cases ho
    | request hm => cases hm
    | @worker x hx hc =>
      obtain rfl : x = .idle := (List.mem_replicate.mp hx).2
      cases hc
    | response hm => cases hm
    | reactor hm => cases hm

theorem origin_step {p p' : State × List Build} {a : Act} (h : Origin p)
    (hs : watch step builds p a = some p') : Origin p' := by
  obtain ⟨hst, hlog⟩ := watch_eq_some.mp hs
  refine ⟨fun b hb => ?_, fun msg hm => ?_⟩
  · rw [hlog] at hb
    rcases List.mem_append.mp hb with hb | hb
    · exact h.built b hb
    · exact mem_builds hst hb
  · rw [hlog]
    rcases carried_of_step hst hm with hm | ⟨b, hb, e⟩
    · obtain ⟨b, hb, e⟩ := h.carried msg hm
      exact ⟨b, List.mem_append_left _ hb, e⟩
    · exact ⟨b, List.mem_append_right _ hb, e⟩

section Runs

variable {n : ℕ} {as : List Act} {p : State × List Build}

theorem carried_of_run (h : Run (watch step builds) free (init n, []) as p) : Origin p :=
  h.invariant (init_origin n) fun _ _ _ hi _ hs => origin_step hi hs

/-- **When the messages are what was received.**  Exactly if no chunk that a `recv` returned has a
zero byte or fills the buffer. -/
theorem fidelity_iff (h : Run (watch step builds) free (init n, []) as p) :
    Fidelity p ↔ ∀ b ∈ p.2, 0 ∉ b.chunk ∧ b.chunk.length < 1024 := by
  have ho := carried_of_run h
  have hiff : ∀ b ∈ p.2, (b.msg.text = b.chunk ∧ 0 ∈ buffer b.chunk ↔
      0 ∉ b.chunk ∧ b.chunk.length < 1024) := fun b hb => by
    obtain ⟨⟨beyond, htext⟩, hlen⟩ := ho.built b hb
    rw [htext]
    exact exact_iff hlen
  constructor
  · intro hf b hb
    exact (hiff b hb).mp (hf.built b hb)
  · intro hc
    have hb : ∀ b ∈ p.2, b.msg.text = b.chunk ∧ 0 ∈ buffer b.chunk := fun b hb =>
      (hiff b hb).mpr (hc b hb)
    refine ⟨hb, fun msg hm => ?_⟩
    obtain ⟨b, hmem, rfl⟩ := ho.carried msg hm
    exact ⟨b, hmem, rfl, (hb b hmem).1⟩

end Runs

/-- A client sends `bytes`, and they come back. -/
def payloadRun (bytes : List UInt8) : List Act := List.flatten
  [[.connect, .epollWait [4]], acceptActs 5 6,
    [.dispatch, .clientSend 0 bytes, .epollWait [5], .dispatch], readActs,
    [.recv 1024 [], .dispatch, .pop 0, .shiftReq 0, .pushRsp 0, .write 0, .epollWait [6],
      .dispatch, .read, .shiftRsp, .send none]]

theorem fidelity_text : ∃ p : State × List Build,
    Run (watch step builds) free (init 1, []) (payloadRun [104, 105]) p ∧
    (p.1.log.filterMap Op.carries).map Msg.text = List.replicate 3 [104, 105] ∧ Fidelity p := by
  obtain ⟨p, hr, hl, hc⟩ : ∃ p : State × List Build,
      Run (watch step builds) free (init 1, []) (payloadRun [104, 105]) p ∧
      (p.1.log.filterMap Op.carries).map Msg.text = List.replicate 3 [104, 105] ∧
      ∀ b ∈ p.2, 0 ∉ b.chunk ∧ b.chunk.length < 1024 := Run.exists_of_exec _ _ (by decide)
  exact ⟨p, hr, hl, (fidelity_iff hr).mpr hc⟩

/-- **A zero byte ends the message.**  Of the three bytes that the client sends, one comes back. -/
theorem not_fidelity : ¬ ∀ n as p,
    Run (watch step builds) (fun p a => lowestFree p.1 a) (init n, []) as p → Fidelity p := by
  intro h
  obtain ⟨p, hr, hb⟩ : ∃ p : State × List Build,
      Run (watch step builds) (fun p a => lowestFree p.1 a) (init 1, []) (payloadRun [1, 0, 2]) p ∧
      ∃ b ∈ p.2, b.msg.text ≠ b.chunk := Run.exists_of_exec _ _ (by decide)
  obtain ⟨b, hb, hne⟩ := hb
  exact hne ((h _ _ _ hr).built b hb).1

end PracticeCode.Server31
