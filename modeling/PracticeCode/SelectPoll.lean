import PracticeCode.PollServer.Passes
import PracticeCode.SelectServer.Passes

/-!
# The select server and the poll server

The one walks a set of numbers in their order, and the other a vector in the order of arrival.  Both
do in every pass what `Service.pass` says, and so they cannot be told apart by a client, as long as
the numbers have a bit in an `fd_set`: `select` is for numbers below `FD_SETSIZE`, and `poll` has no
such limit.

`interchangeable`: with these numbers the two can do the same passes, and show the same.
-/

namespace PracticeCode.SelectPoll

open Linux

/-- The two servers do the same passes, with the same connections and calls behind them. -/
structure Interchangeable (sfd : Fd) (ps : List Pass) : Prop where
  passes : (∃ s, (SelectServer.eventLoop sfd).Passes ps s) ↔
    ∃ t, (PollServer.eventLoop sfd).Passes ps t
  agree : ∀ s t, (SelectServer.eventLoop sfd).Passes ps s → (PollServer.eventLoop sfd).Passes ps t →
    (∀ fd, s.table.Open sfd fd ↔ t.table.Open sfd fd) ∧
      ∀ c, s.log.filter (Call.on c) = t.log.filter (Call.on c)

/-- The numbers of the clients are greater than that of the listening socket. -/
def Above (sfd : Fd) (ps : List Pass) : Prop :=
  ∀ p ∈ ps, ∀ cfd, p.accept = some cfd → sfd < cfd

/-- A client comes in under the number 1024. -/
def manyClients : Pass := ⟨[3], some 1024, fun _ => .eof, fun _ => none⟩

/-- **`poll` serves a client that has no bit in an `fd_set`.** -/
theorem not_interchangeable : ¬ ∀ sfd ps, Above sfd ps → Interchangeable sfd ps := by
  intro h
  have habove : Above 3 ([] ++ [manyClients]) := by
    intro p hp cfd hc
    obtain rfl : p = manyClients := by simpa using hp
    obtain rfl : 1024 = cfd := Option.some.inj hc
    decide
  have hfeas : EventLoop.AllFeasible 3 (fun _ => True) ([] ++ [manyClients]) := by
    refine .snoc .nil ⟨?_, ?_, ?_⟩
    · simp [manyClients, Table.Open]
    · intro _ cfd hc
      obtain rfl : 1024 = cfd := Option.some.inj hc
      exact ⟨rfl, by decide, trivial⟩
    · intro fd _ c _
      trivial
  obtain ⟨s, hs⟩ := (h 3 _ habove).passes.mpr
    ((PollServer.performs 3).complete rfl hfeas fun _ _ => trivial)
  have hlast := ((SelectServer.performs 3).sound hs habove).1.last
  exact absurd (hlast.accept (by simp [manyClients]) 1024 rfl).2.2 (lt_irrefl _)

/-- **The select server and the poll server are interchangeable**, with every descriptor below
`FD_SETSIZE`, and above the listening socket. -/
theorem interchangeable {sfd : Fd} {ps : List Pass} (hsfd : sfd < SelectServer.FD_SETSIZE)
    (habove : Above sfd ps)
    (hsize : ∀ p ∈ ps, ∀ cfd, p.accept = some cfd → cfd < SelectServer.FD_SETSIZE) :
    Interchangeable sfd ps where
  passes := by
    constructor
    · rintro ⟨s, hs⟩
      have hf := ((SelectServer.performs sfd).sound hs habove).1
      exact (PollServer.performs sfd).complete rfl (hf.mono fun _ _ _ _ => trivial)
        fun _ _ => trivial
    · rintro ⟨t, ht⟩
      have hf := ((PollServer.performs sfd).sound ht fun _ _ => trivial).1
      exact (SelectServer.performs sfd).complete (if_pos hsfd) (hf.mono hsize) habove
  agree s t hs ht := by
    have hS := ((SelectServer.performs sfd).sound hs habove).2.kept.shows
    have hT := ((PollServer.performs sfd).sound ht fun _ _ => trivial).2.kept.shows
    refine ⟨fun fd => ?_, fun c => ?_⟩
    · rw [hS.table, hT.table]
    · rw [hS.calls, hT.calls]

/-- The first client has the number 5 and the second 4; then 5 sends, and 4 leaves. -/
def crossed : List Pass :=
  [] ++ [⟨[3], some 5, fun _ => .eof, fun _ => none⟩] ++
    [⟨[3], some 4, fun _ => .eof, fun _ => none⟩] ++
    [⟨[4, 5], none, fun c => if c = 0 then .data [7] else .eof, fun _ => some 1024⟩]

theorem crossed_feasible : EventLoop.AllFeasible 3 (fun _ => True) crossed := by
  refine .snoc (.snoc (.snoc .nil ⟨?_, ?_, ?_⟩) ⟨?_, ?_, ?_⟩) ⟨?_, ?_, ?_⟩
  · simp [Table.Open]
  · intro _ cfd hc
    obtain rfl : 5 = cfd := Option.some.inj hc
    exact ⟨rfl, by decide, trivial⟩
  · exact fun _ _ _ _ => trivial
  · simp [Table.Open]
  · intro _ cfd hc
    obtain rfl : 4 = cfd := Option.some.inj hc
    exact ⟨rfl, by decide, trivial⟩
  · exact fun _ _ _ _ => trivial
  · intro fd hfd
    rcases List.mem_pair.mp hfd with rfl | rfl <;> exact .inr rfl
  · intro hr
    simp at hr
  · intro fd _ c _
    dsimp only
    split
    · exact ⟨by decide, by decide⟩
    · trivial

theorem interchangeable_crossed : ∃ s t, (SelectServer.eventLoop 3).Passes crossed s ∧
    (PollServer.eventLoop 3).Passes crossed t ∧
      ∀ c, s.log.filter (Call.on c) = t.log.filter (Call.on c) := by
  have hI : Interchangeable 3 crossed := by
    refine interchangeable (by decide) ?_ ?_
    · simp [Above, crossed]
    · simp [crossed, SelectServer.FD_SETSIZE]
  obtain ⟨t, ht⟩ := (PollServer.performs 3).complete rfl crossed_feasible fun _ _ => trivial
  obtain ⟨s, hs⟩ := hI.passes.mpr ⟨t, ht⟩
  exact ⟨s, t, hs, ht, (hI.agree s t hs ht).2⟩

end PracticeCode.SelectPoll
