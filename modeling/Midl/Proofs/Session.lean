import Midl.Output.Session
import Midl.Proofs.Table

/-!
# Sessions forget

A session is asked for output again and again, and its level may be moved in between. Each request
works on what the ones before have left behind: a level that was moved, or, where output was given
up half-way, lines and diagnostics that belong to nothing. A request for output starts from a
cleared draft. So whatever happened before, it is answered like the first request of a session, and
so are all requests after it (`serve_append_generate`). If there is output, then the draft is back
at the level it started from.
-/

namespace Midl.Output

/-- What a session can be asked for. -/
inductive Request where
  /-- To go one level deeper. -/
  | raise
  /-- To go one level back. -/
  | lower
  /-- To generate output. -/
  | generate (ds : List Declaration)

/-- The answer to a request: output if there was a request for it, or the fault that the request was
given up with. -/
abbrev Answer := Except Fault (Option Generated)

namespace Session

/-- Answers one request. -/
def answer (session : Session) : Request → Answer × Session
  | .raise =>
    let (result, session) := session.raise
    (result.map fun () => none, session)
  | .lower => (.ok none, session.lower)
  | .generate ds =>
    let (result, session) := session.generate ds
    (result.map some, session)

/-- Answers requests one after the other. A fault does not keep later requests from being made. -/
def serve (session : Session) : List Request → List Answer × Session
  | [] => ([], session)
  | request :: requests =>
    let (answer, session) := session.answer request
    let (answers, session) := session.serve requests
    (answer :: answers, session)

/-- Requests are served one after the other, each by the session that the ones before have left. -/
theorem serve_append (session : Session) (earlier later : List Request) :
    session.serve (earlier ++ later) =
      ((session.serve earlier).1 ++ ((session.serve earlier).2.serve later).1,
        ((session.serve earlier).2.serve later).2) := by
  induction earlier generalizing session with
  | nil => rfl
  | cons request earlier ih => simp [serve, ih]

/-! ## What one request changes -/

/-- Raising the level does not touch the settings. -/
theorem settings_raise (session : Session) : session.raise.2.settings = session.settings := by
  unfold raise
  split <;> rfl

/-- Generating output does not touch the settings. -/
theorem settings_generate (session : Session) (ds : List Declaration) :
    (session.generate ds).2.settings = session.settings := by
  unfold generate
  dsimp only
  split
  · rfl
  · split <;> rfl

/-- No request changes the settings. -/
theorem settings_answer (session : Session) (request : Request) :
    (session.answer request).2.settings = session.settings := by
  cases request with
  | raise => exact session.settings_raise
  | lower => rfl
  | generate ds => exact session.settings_generate ds

/-- No request does. -/
theorem settings_serve (session : Session) (requests : List Request) :
    (session.serve requests).2.settings = session.settings := by
  induction requests generalizing session with
  | nil => rfl
  | cons request requests ih => exact (ih _).trans (session.settings_answer request)

/-- Nothing but the settings matters to a request for output. -/
theorem generate_congr {session session' : Session} (h : session.settings = session'.settings)
    (ds : List Declaration) : session.generate ds = session'.generate ds := by
  unfold generate
  rw [h]

/-- Output leaves the draft at the level that it was started from. -/
theorem level_of_generate {session : Session} {ds : List Declaration} {g : Generated}
    (h : (session.generate ds).1 = .ok g) : (session.generate ds).2.draft.level = 0 := by
  by_cases hne : ds = []
  · rw [hne]
    rfl
  · cases hrun : program session.settings.packageName session.settings.typesPath ds
        session.settings.opened with
    | ok _ draft =>
      obtain ⟨x, rfl, -⟩ := program_adds_tables _ _ ds 0 session.settings.opened () draft rfl hrun
      rw [generate_of_ok hne hrun]
      rfl
    | error fault draft =>
      rw [generate_of_error hne hrun] at h
      cases h

/-! ## What a history changes -/

/-- After any requests at all, a request for output is answered, and leaves the session, as if it
were the first one; so are the requests after it. Where there is output, the level is zero again. -/
theorem serve_append_generate (settings : Settings) (history : List Request)
    (ds : List Declaration) :
    let fresh : Session := ⟨settings, {}⟩
    let session := (fresh.serve history).2
    (session.generate ds).1 = Output.generate settings ds ∧
    (session.generate ds).2 = (fresh.generate ds).2 ∧
    (∀ g, (session.generate ds).1 = .ok g → (session.generate ds).2.draft.level = 0) ∧
    ∀ later, fresh.serve (history ++ .generate ds :: later) =
      ((fresh.serve history).1 ++ (fresh.serve (.generate ds :: later)).1,
        (fresh.serve (.generate ds :: later)).2) := by
  intro fresh session
  have hgenerate : session.generate ds = fresh.generate ds :=
    generate_congr (fresh.settings_serve history) ds
  refine ⟨by rw [hgenerate]; rfl, by rw [hgenerate], fun g => level_of_generate, fun later => ?_⟩
  have hlater : session.serve (.generate ds :: later) = fresh.serve (.generate ds :: later) := by
    rw [serve, serve, answer, answer, hgenerate]
  rw [serve_append]
  show (_ ++ (session.serve _).1, (session.serve _).2) = _
  rw [hlater]

-- What a fault leaves behind is still there when the next request is made: here, an enumeration
-- that was given up at its second member, inside the module and after a comment.
example :
    let ds : List Declaration := [.enumeration ⟨"E", [⟨.helpString, some "text"⟩],
      [⟨"A", none⟩, ⟨"B", some ["--9223372036854775808"]⟩]⟩]
    let draft := ((Session.mk {} {}).serve [.generate ds, .raise]).2.draft
    (draft.level, draft.out.isEmpty) = (2, false) := by
  decide +kernel

end Session

end Midl.Output
