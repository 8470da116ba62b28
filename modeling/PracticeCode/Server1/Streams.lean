import PracticeCode.Server1.Answers

/-!
# What a client gets

A connection carries one stream each way, and the server serves many of them by number, with numbers
that are given out again.  `client_stream`: nevertheless a client gets nothing but the answers to
its own bytes, in the order in which it sent them.
-/

namespace PracticeCode.Server1

open Lib Linux

/-- The answers to some chunks, each cut where `send` stopped. -/
inductive Answers : List (List UInt8) → List UInt8 → Prop
  | nil : Answers [] []
  | snoc {chunks out chunk m} : Answers chunks out → chunk.length ≤ bufferSize →
      Answers (chunks ++ [chunk]) (out ++ (fill chunk).take m)

/-- Nothing is lost on the way, and all chunks but `late` are answered. -/
structure Flow (l : Link) (late : List (List UInt8)) : Prop where
  sent : l.chunks.flatten ++ l.request = l.sent
  answered : ∃ chunks, l.chunks = chunks ++ late ∧ Answers chunks (l.got ++ l.reply)
  few : late.length ≤ 1

/-- The server is about to send `buf` on the connection. -/
def System.sending (x : System) (c : Conn) (buf : List UInt8) : Prop :=
  ∃ cfd evs, x.server.point = .send cfd buf evs ∧ x.table.files cfd = some c

/-- What is late is the chunk whose answer is about to be sent, or what the server left behind. -/
def Flowing (x : System) (c : Conn) : Prop :=
  ∃ late, Flow (x.links c) late ∧
    (∀ buf, x.sending c buf → ∃ chunk, late = [chunk] ∧ buf = fill chunk ∧
      chunk.length ≤ bufferSize) ∧
    ((∀ buf, ¬ x.sending c buf) → x.server.point ≠ .exited → late = [])

section Flow

variable {sfd : Fd} {x y : System} {a : Act} {c d : Conn} {l : Link} {late : List (List UInt8)}

theorem flow_fresh : Flow .fresh [] where
  sent := rfl
  answered := ⟨[], rfl, .nil⟩
  few := Nat.zero_le 1

theorem Flow.ask (h : Flow l late) (bytes : List UInt8) : Flow (l.ask bytes) late where
  sent := by
    simp only [Link.ask]
    rw [← h.sent, List.append_assoc]
  answered := h.answered
  few := h.few

theorem Flow.hear (h : Flow l []) {bytes : List UInt8} (hpre : bytes <+: l.request) :
    Flow (l.hear bytes) [bytes] where
  sent := by
    obtain ⟨rest, hrest⟩ := hpre
    simp only [Link.hear]
    rw [← h.sent, ← hrest, List.drop_left, List.flatten_append, List.append_assoc]
    simp
  answered := by
    obtain ⟨chunks, hc, ha⟩ := h.answered
    rw [List.append_nil] at hc
    exact ⟨chunks, by simp [Link.hear, hc], ha⟩
  few := le_refl 1

theorem Flow.answer {chunk : List UInt8} (h : Flow l [chunk]) (hle : chunk.length ≤ bufferSize)
    (m : ℕ) : Flow (l.answer ((fill chunk).take m)) [] where
  sent := h.sent
  answered := by
    obtain ⟨chunks, hc, ha⟩ := h.answered
    refine ⟨chunks ++ [chunk], by simpa [Link.answer] using hc, ?_⟩
    simp only [Link.answer]
    rw [← List.append_assoc]
    exact ha.snoc hle
  few := Nat.zero_le 1

theorem Flow.get (h : Flow l late) {bytes : List UInt8} (hpre : bytes <+: l.reply) :
    Flow (l.get bytes) late where
  sent := h.sent
  answered := by
    obtain ⟨rest, hrest⟩ := hpre
    obtain ⟨chunks, hc, ha⟩ := h.answered
    refine ⟨chunks, hc, ?_⟩
    simp only [Link.get]
    rw [← hrest, List.drop_left, List.append_assoc, hrest]
    exact ha
  few := h.few

/-- The stage and the end of a connection carry no bytes. -/
theorem Flow.mark (h : Flow l late) (stage : Stage) (shut : Bool) :
    Flow { l with stage := stage, shut := shut } late :=
  ⟨h.sent, h.answered, h.few⟩

/-- A step in which the server neither begins nor ends a `send`. -/
theorem Flowing.quiet (h : Flowing x c) (hx : ∀ buf, ¬ x.sending c buf)
    (hy : ∀ buf, ¬ y.sending c buf) (hl : ∀ late, Flow (x.links c) late → Flow (y.links c) late)
    (he : y.server.point ≠ .exited → x.server.point ≠ .exited) : Flowing y c := by
  obtain ⟨late, hf, -, hnone⟩ := h
  exact ⟨late, hl late hf, fun buf hs => absurd hs (hy buf), fun _ hne => hnone hx (he hne)⟩

/-- A step of the clients. -/
theorem Flowing.client (h : Flowing x c) (hs : y.server = x.server) (ht : y.table = x.table)
    (hl : ∀ late, Flow (x.links c) late → Flow (y.links c) late) : Flowing y c := by
  obtain ⟨late, hf, hsend, hnone⟩ := h
  have hiff : ∀ buf, y.sending c buf ↔ x.sending c buf := by
    intro buf
    unfold System.sending
    rw [hs, ht]
  refine ⟨late, hl late hf, fun buf hb => hsend buf ((hiff buf).mp hb), fun hno hne => ?_⟩
  exact hnone (fun buf hb => hno buf ((hiff buf).mpr hb)) (hs ▸ hne)

theorem not_sending (hp : ∀ cfd buf evs, x.server.point ≠ .send cfd buf evs) (buf : List UInt8) :
    ¬ x.sending c buf := by
  rintro ⟨cfd, evs, h, -⟩
  exact hp cfd buf evs h

theorem flowing_served (h : ∀ c, Flowing x c) (hs : Served sfd x a y) (c : Conn) :
    Flowing y c := by
  cases hs with
  | exit _ =>
    -- what was about to be sent stays behind
    obtain ⟨late, hf, -, -⟩ := h c
    refine ⟨late, hf, fun buf hb => ?_, fun _ hne => absurd rfl hne⟩
    exact absurd hb (not_sending (by simp) buf)
  | wait hp _ _ | batchEnd hp | listening hp | data hp _ | add hp _ | recvStop hp _ _ | del hp _ =>
    exact (h c).quiet (not_sending (by simp [hp])) (not_sending (by simp)) (fun _ => id)
      (by simp [hp])
  | accept hp _ _ | close hp _ =>
    refine (h c).quiet (not_sending (by simp [hp])) (not_sending (by simp)) (fun late hf => ?_)
      (by simp [hp])
    simp only [System.setLink, Function.update_apply]
    split
    · rename_i e
      subst e
      exact hf.mark _ _
    · exact hf
  | @recvData cfd evs d bytes log hp hd _ hle hpre =>
    by_cases e : c = d
    · subst e
      obtain ⟨late, hf, -, hnone⟩ := h c
      obtain rfl := hnone (not_sending (by simp [hp])) (by simp [hp])
      refine ⟨[bytes], ?_, ?_, fun hno => absurd ⟨cfd, evs, rfl, hd⟩ (hno (fill bytes))⟩
      · simpa [System.setLink] using hf.hear hpre
      · rintro buf ⟨cfd', evs', hp', -⟩
        cases hp'
        exact ⟨bytes, rfl, rfl, hle⟩
    · refine (h c).quiet (not_sending (by simp [hp])) ?_ (fun late hf => ?_) (by simp [hp])
      · rintro buf ⟨cfd', evs', hp', hc'⟩
        cases hp'
        exact e (Option.some.inj (hc'.symm.trans hd))
      · simpa [System.setLink, e] using hf
  | @send cfd buf evs d m log hp hd _ _ =>
    by_cases e : c = d
    · subst e
      obtain ⟨late, hf, hsend, -⟩ := h c
      obtain ⟨chunk, rfl, rfl, hle⟩ := hsend buf ⟨cfd, evs, hp, hd⟩
      refine ⟨[], ?_, fun buf hb => absurd hb (not_sending (by simp) buf), fun _ _ => rfl⟩
      simpa [System.setLink] using hf.answer hle m
    · refine (h c).quiet ?_ (not_sending (by simp)) (fun late hf => ?_) (by simp [hp])
      · rintro buf' ⟨cfd', evs', hp', hc'⟩
        rw [hp] at hp'
        cases hp'
        exact e (Option.some.inj (hc'.symm.trans hd))
      · simpa [System.setLink, e] using hf

theorem flowing_moved (h : ∀ c, Flowing x c) {tid : List UInt8} {i : ℕ} {b : ClientAct}
    (hlt : ∀ fd c, x.table.files fd = some c → c < x.connected)
    (hm : Moved tid x i b y) (c : Conn) : Flowing y c := by
  cases hm with
  | connect _ =>
    by_cases e : c = x.connected
    · -- the connection is new
      subst e
      refine ⟨[], by simpa [System.setThread, System.setLink] using flow_fresh, ?_, fun _ _ => rfl⟩
      rintro buf ⟨cfd, evs, -, hc⟩
      exact absurd (hlt cfd _ hc) (lt_irrefl _)
    · refine (h c).client rfl rfl fun late hf => ?_
      simpa [System.setThread, System.setLink, e] using hf
  | @send d m _ _ _ =>
    refine (h c).client rfl rfl fun late hf => ?_
    simp only [System.setThread, System.setLink, Function.update_apply]
    split
    · rename_i e
      subst e
      exact hf.ask _
    · exact hf
  | @recv d bytes _ hpre =>
    refine (h c).client rfl rfl fun late hf => ?_
    simp only [System.setThread, System.setLink, Function.update_apply]
    split
    · rename_i e
      subst e
      exact hf.get hpre
    · exact hf
  | recvEof _ => exact (h c).client rfl rfl fun _ => id
  | close _ =>
    refine (h c).client rfl rfl fun late hf => ?_
    simp only [System.setThread, System.setLink, Function.update_apply]
    split
    · rename_i e
      subst e
      exact hf.mark _ true
    · exact hf
  | fail => exact (h c).client rfl rfl fun late hf => hf.mark _ true

/-- What is accepted was connected. -/
def Numbered (x : System) : Prop := ∀ fd c, x.table.files fd = some c → c < x.connected

theorem numbered_served (h : Numbered x) (hs : Served sfd x a y) : Numbered y := by
  cases hs with
  | @accept cfd evs log _ _ hlt =>
    intro fd c hc
    change (x.table.accept cfd).files fd = some c at hc
    rw [Table.files_accept] at hc
    split at hc
    · obtain rfl := Option.some.inj hc
      exact hlt
    · exact h fd c hc
  | close _ _ => exact fun fd c hc => h fd c (Table.files_close_eq_some.mp hc).2
  | _ => exact h

theorem numbered_moved (h : Numbered x) {tid : List UInt8} {i : ℕ} {b : ClientAct}
    (hm : Moved tid x i b y) : Numbered y := by
  cases hm with
  | connect _ => exact fun fd c hc => Nat.lt_succ_of_lt (h fd c hc)
  | _ => exact h

end Flow

/-! ## Whole runs -/

section Runs

variable {efd sfd : Fd} {n : ℕ} {tid : ℕ → List UInt8} {x y : System} {as : List SystemAct}

theorem boot_flowing (efd sfd : Fd) (n : ℕ) :
    Numbered (boot efd sfd n) ∧ ∀ c, Flowing (boot efd sfd n) c := by
  constructor
  · intro fd c hc
    cases hc
  · intro c
    refine ⟨[], flow_fresh, fun buf hs => ?_, fun _ _ => rfl⟩
    exact absurd hs (not_sending (by simp [boot, init]) buf)

theorem flowing_system {b : SystemAct} (h : Numbered x ∧ ∀ c, Flowing x c)
    (hs : system sfd tid x b = some y) : Numbered y ∧ ∀ c, Flowing y c := by
  cases b with
  | server a =>
    have hserved := served_of_system hs
    exact ⟨numbered_served h.1 hserved, flowing_served h.2 hserved⟩
  | client i a =>
    have hm := moved_of_client hs
    exact ⟨numbered_moved h.1 hm, flowing_moved h.2 h.1 hm⟩
  | exit =>
    obtain rfl := Option.some.inj hs
    exact ⟨h.1, fun c => (h.2 c).client rfl rfl fun late hf => hf.mark _ true⟩

/-- **The stream of a client.**  What the server read on a connection is the beginning of what the
client sent there, and what the client got is the beginning of the answers to it. -/
theorem client_stream (h : Run (system sfd tid) free (boot efd sfd n) as x) (c : Conn) :
    (x.links c).chunks.flatten <+: (x.links c).sent ∧
      ∃ chunks late out, (x.links c).chunks = chunks ++ late ∧ late.length ≤ 1 ∧
        Answers chunks out ∧ (x.links c).got <+: out := by
  have hI : Numbered x ∧ ∀ c, Flowing x c :=
    h.invariant (I := fun x => Numbered x ∧ ∀ c, Flowing x c)
      (boot_flowing efd sfd n) fun x b y hI _ hs => flowing_system hI hs
  obtain ⟨late, hf, -⟩ := hI.2 c
  obtain ⟨chunks, hc, ha⟩ := hf.answered
  exact ⟨⟨_, hf.sent⟩, chunks, late, _, hc, hf.few, ha, List.prefix_append _ _⟩

set_option maxRecDepth 8000 in
/-- The thread of `oneThread` reads its answer. -/
theorem client_stream_one : ∃ x, Run (system 4 fun _ => [55]) free (boot 3 4 1)
      (oneThread ++ oneAnswer ++ [.client 0 (.recv (fill (message [55])))]) x ∧
    (x.links 0).got = fill (message [55]) ∧ (x.links 0).chunks.flatten <+: (x.links 0).sent ∧
      ∃ chunks late out, (x.links 0).chunks = chunks ++ late ∧ late.length ≤ 1 ∧
        Answers chunks out ∧ (x.links 0).got <+: out := by
  obtain ⟨x, h, hg⟩ : ∃ x, Run (system 4 fun _ => [55]) free (boot 3 4 1)
      (oneThread ++ oneAnswer ++ [.client 0 (.recv (fill (message [55])))]) x ∧
      (x.links 0).got = fill (message [55]) := Run.exists_of_exec _ _ (by decide)
  exact ⟨x, h, hg, client_stream h 0⟩

end Runs

end PracticeCode.Server1
