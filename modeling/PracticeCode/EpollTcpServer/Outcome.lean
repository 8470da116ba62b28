import PracticeCode.EpollTcpServer.Defs

/-!
# What a step of the loop thread can do

`Outcome s a s'` lists the ways a step can end, with what it found and the state it leaves;
`outcome_of_step` is the inversion of `step`, put together from one lemma for each function.
-/

namespace PracticeCode.EpollTcpServer

open Linux

inductive Outcome (s : State) : Act → State → Prop
  -- `EpollLoop`
  | enter : s.point = .start → Outcome s (.calloc true) (s.goto .head)
  | test : s.point = .head → Outcome s .test (s.goto .wait)
  | stop {a} : s.point = .start ∨ s.point = .head → Outcome s a (s.goto .done)
  | epollWait {evs} : s.point = .wait → CanWait s evs →
      Outcome s (.epollWait evs) ((s.goto (.loop evs)).record (.epollWait s.epoll))
  | batchEnd : s.point = .loop [] → Outcome s .dispatch (s.goto .head)
  | hangup {fd events evs} : s.point = .loop ((fd, events) :: evs) →
      Outcome s .dispatch (s.goto (.close fd evs))
  | incoming {fd events evs} : s.point = .loop ((fd, events) :: evs) → s.self.handle_ = some fd →
      Outcome s .dispatch (s.goto (.accept evs))
  | readable {fd events evs} : s.point = .loop ((fd, events) :: evs) → s.self.handle_ ≠ some fd →
      Outcome s .dispatch (s.goto (.read fd evs))
  | report {fd events evs} : s.point = .loop ((fd, events) :: evs) →
      Outcome s .dispatch (s.goto (.loop evs))
  | close {fd evs} : s.point = .close fd evs → Outcome s .close ((s.closeFd fd).goto (.loop evs))
  -- `OnSocketAccept`
  | accept {cli_fd evs} : s.point = .accept evs → s.listening = some .listening →
      s.files cli_fd = none →
      Outcome s (.accept (.ok cli_fd)) (({ s with
        files := Function.update s.files cli_fd (some (.sock s.conns))
        conns := s.conns + 1 }.goto (.getpeername cli_fd evs)).record (.accept s.listening))
  | acceptAgain {evs} : s.point = .accept evs →
      Outcome s (.accept .again) ((s.goto (.loop evs)).record (.accept s.listening))
  | acceptError {evs} : s.point = .accept evs →
      Outcome s (.accept .error) ((s.goto (.accept evs)).record (.accept s.listening))
  | getpeername {cli_fd evs} : s.point = .getpeername cli_fd evs →
      Outcome s (.getpeername true) (s.goto (.getfl cli_fd evs))
  | getpeernameFail {cli_fd evs} : s.point = .getpeername cli_fd evs →
      Outcome s (.getpeername false) (s.goto (.accept evs))
  | getfl {cli_fd evs} : s.point = .getfl cli_fd evs →
      Outcome s (.getfl true) (s.goto (.setfl cli_fd evs))
  | setfl {cli_fd evs} : s.point = .setfl cli_fd evs →
      Outcome s (.setfl true) (s.goto (.ctlAdd cli_fd evs))
  | clientFail {a cli_fd evs} : s.point = .getfl cli_fd evs ∨ s.point = .setfl cli_fd evs ∨
        s.point = .ctlAdd cli_fd evs →
      Outcome s a (s.goto (.closeClient cli_fd evs))
  | ctlAdd {cli_fd evs} : s.point = .ctlAdd cli_fd evs → s.interest cli_fd = false →
      Outcome s (.ctlAdd true)
        ({ s with interest := Function.update s.interest cli_fd true }.goto (.accept evs))
  | closeClient {cli_fd evs} : s.point = .closeClient cli_fd evs →
      Outcome s .close ((s.closeFd cli_fd).goto (.accept evs))
  -- `OnSocketRead`
  | readData {fd evs chunk} : s.point = .read fd evs → isSock (s.files fd) = true →
      Outcome s (.read (.data chunk))
        ((s.goto (.testCallback ⟨some fd, chunk⟩ fd evs)).record (.read (s.files fd) chunk))
  | readAgain {fd evs} : s.point = .read fd evs →
      Outcome s (.read .again) ((s.goto (.loop evs)).record (.read (s.files fd) []))
  | readStop {a fd evs} : s.point = .read fd evs →
      Outcome s a ((s.goto (.close fd evs)).record (.read (s.files fd) []))
  | hasCallback {data fd evs} : s.point = .testCallback data fd evs →
      Outcome s .testCallback (s.goto (.callback data fd evs))
  | noCallback {data fd evs} : s.point = .testCallback data fd evs → s.self.recv_callback_ = none →
      Outcome s .testCallback (s.goto (.read fd evs))
  | callback {data fd evs} : s.point = .callback data fd evs →
      Outcome s .callback ((s.goto (.write data fd evs)).record (.callback data))
  | terminate {data fd evs} : s.point = .callback data fd evs → s.self.recv_callback_ = none →
      Outcome s .callback (s.goto .terminated)
  -- `SendData`
  | noFd {res data fd evs} : s.point = .write data fd evs → data.fd = none →
      Outcome s (.write res) (s.goto (.read fd evs))
  | write {n data sfd fd evs} : s.point = .write data fd evs → data.fd = some sfd →
      n ≤ data.msg.length →
      Outcome s (.write (.ok n))
        ((s.goto (.read fd evs)).record (.write (s.files sfd) data.msg (some n)))
  | writeAgain {data sfd fd evs} : s.point = .write data fd evs → data.fd = some sfd →
      Outcome s (.write .again)
        ((s.goto (.read fd evs)).record (.write (s.files sfd) data.msg none))
  | writeError {data sfd fd evs} : s.point = .write data fd evs → data.fd = some sfd →
      Outcome s (.write .error)
        ((s.goto (.closeSend sfd fd evs)).record (.write (s.files sfd) data.msg none))
  | closeSend {sfd fd evs} : s.point = .closeSend sfd fd evs →
      Outcome s .close ((s.closeFd sfd).goto (.read fd evs))

theorem outcome_of_branch {s : State} {fd : Fd} {events : Mask} {evs : List Event}
    (hp : s.point = .loop ((fd, events) :: evs)) :
    Outcome s .dispatch (s.goto (branch s.self fd events evs)) := by
  unfold branch
  split
  · exact .hangup hp
  · split
    · exact .hangup hp
    · split
      · split
        · rename_i h
          exact .incoming hp h
        · rename_i h
          exact .readable hp h
      · exact .report hp

theorem outcome_of_epollLoop {s s' : State} {a : Act} (h : epollLoop s a = some s') :
    Outcome s a s' := by
  cases a with
  | calloc ok =>
    simp only [epollLoop] at h
    split at h
    · rename_i hp
      cases h
      cases ok with
      | false => exact .stop (.inl hp)
      | true => exact .enter hp
    · cases h
  | test =>
    simp only [epollLoop] at h
    split at h
    · rename_i hp
      cases h
      split
      · exact .test hp
      · exact .stop (.inr hp)
    · cases h
  | epollWait evs =>
    simp only [epollLoop] at h
    split at h
    · rename_i hp
      split at h
      · rename_i hw
        cases h
        exact .epollWait hp hw
      · cases h
    · cases h
  | dispatch =>
    simp only [epollLoop] at h
    split at h
    · rename_i hp
      cases h
      exact .batchEnd hp
    · rename_i hp
      cases h
      exact outcome_of_branch hp
    · cases h
  | close =>
    simp only [epollLoop] at h
    split at h
    · rename_i hp
      cases h
      exact .close hp
    · cases h
  | _ => simp [epollLoop] at h

theorem outcome_of_accept {s s' : State} {res : AcceptResult}
    (h : onSocketAccept s (.accept res) = some s') : Outcome s (.accept res) s' := by
  simp only [onSocketAccept] at h
  split at h
  · rename_i hp
    split at h
    · rename_i hc
      cases res with
      | ok cli_fd =>
        cases h
        exact .accept hp hc.1 hc.2
      | again =>
        cases h
        exact .acceptAgain hp
      | error =>
        cases h
        exact .acceptError hp
    · cases h
  · cases h

theorem outcome_of_onSocketAccept {s s' : State} {a : Act} (h : onSocketAccept s a = some s') :
    Outcome s a s' := by
  cases a with
  | accept res => exact outcome_of_accept h
  | getpeername ok =>
    simp only [onSocketAccept] at h
    split at h
    · rename_i hp
      cases h
      cases ok with
      | false => exact .getpeernameFail hp
      | true => exact .getpeername hp
    · cases h
  | getfl ok =>
    simp only [onSocketAccept] at h
    split at h
    · rename_i hp
      cases h
      cases ok with
      | false => exact .clientFail (.inl hp)
      | true => exact .getfl hp
    · cases h
  | setfl ok =>
    simp only [onSocketAccept] at h
    split at h
    · rename_i hp
      cases h
      cases ok with
      | false => exact .clientFail (.inr (.inl hp))
      | true => exact .setfl hp
    · cases h
  | ctlAdd ok =>
    simp only [onSocketAccept] at h
    split at h
    · rename_i hp
      cases ok with
      | false =>
        cases h
        exact .clientFail (.inr (.inr hp))
      | true =>
        simp only [↓reduceIte, Option.ite_none_right_eq_some] at h
        obtain ⟨hc, he⟩ := h
        cases he
        exact .ctlAdd hp hc.2.2
    · cases h
  | close =>
    simp only [onSocketAccept] at h
    split at h
    · rename_i hp
      cases h
      exact .closeClient hp
    · cases h
  | _ => simp [onSocketAccept] at h

theorem outcome_of_onSocketRead {s s' : State} {a : Act} (h : onSocketRead s a = some s') :
    Outcome s a s' := by
  cases a with
  | read res =>
    simp only [onSocketRead] at h
    split at h
    · rename_i hp
      split at h
      · rename_i hc
        cases res with
        | data chunk =>
          cases h
          exact .readData hp hc.1
        | again =>
          cases h
          exact .readAgain hp
        | eof | error =>
          cases h
          exact .readStop hp
      · cases h
    · cases h
  | testCallback =>
    simp only [onSocketRead] at h
    split at h
    · rename_i hp
      cases h
      split
      · exact .hasCallback hp
      · rename_i hc
        exact .noCallback hp (by simpa using hc)
    · cases h
  | callback =>
    simp only [onSocketRead] at h
    split at h
    · rename_i hp
      split at h
      · cases h
        exact .callback hp
      · rename_i hc
        cases h
        exact .terminate hp hc
    · cases h
  | _ => simp [onSocketRead] at h

theorem outcome_of_sendData {s s' : State} {a : Act} (h : sendData s a = some s') :
    Outcome s a s' := by
  cases a with
  | write res =>
    simp only [sendData] at h
    split at h
    · rename_i hp
      split at h
      · rename_i hd
        cases h
        exact .noFd hp hd
      · rename_i hd
        split at h
        · rename_i hc
          cases res with
          | ok n =>
            cases h
            exact .write hp hd hc.2
          | again =>
            cases h
            exact .writeAgain hp hd
          | error =>
            cases h
            exact .writeError hp hd
        · cases h
    · cases h
  | close =>
    simp only [sendData] at h
    split at h
    · rename_i hp
      cases h
      exact .closeSend hp
    · cases h
  | _ => simp [sendData] at h

theorem outcome_of_step {s s' : State} {a : Act} (h : step s a = some s') : Outcome s a s' := by
  unfold step at h
  split at h
  all_goals first
    | exact outcome_of_onSocketAccept h
    | exact outcome_of_onSocketRead h
    | exact outcome_of_sendData h
    | exact outcome_of_epollLoop h
    | cases h

end PracticeCode.EpollTcpServer
