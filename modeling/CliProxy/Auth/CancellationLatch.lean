import CliProxy.Auth.ApiKeyLogin
import CliProxy.Auth.ClaudeSetupToken
import CliProxy.Auth.CodexDeviceAuth

/-! # Cancellation latches in the login adapters

The two api-key logins keep what `cancel()` promises in every run. The two that scrape a
terminal keep it where no await point lets output or a child in after `cancel()`. -/

namespace CliProxy.Auth

/-- A state of the login of claude in which the cancellation has latched. -/
def ClaudeSetupToken.Session.Latched (s : ClaudeSetupToken.Session) : Prop :=
  Auth.Latched s.cancelled (s.calls.map ClaudeSetupToken.Call.view) s.children

/-- A state of the device-code login in which the cancellation has latched. -/
def CodexDeviceAuth.Session.Latched (s : CodexDeviceAuth.Session) : Prop :=
  Auth.Latched s.cancelled (s.calls.map CodexDeviceAuth.Call.view) s.children

/-- After every run whose steps meet the condition of its adapter, for the two adapters that
have one, no doomed call fulfils, no late one returns a credential, and a cancelled session has
signalled every child that is not gone. -/
theorem cancellationLatches (claude : List ClaudeSetupToken.Event)
    (device : List CodexDeviceAuth.Event) (custom : Bool) (timeoutMs : Nat)
    (cfg : CodexCustomApiKey.Config) (key : List CodexApiKey.Event)
    (customKey : List CodexCustomApiKey.Event) :
    (ClaudeSetupToken.machine.Along ClaudeSetupToken.Session.Latching
      ClaudeSetupToken.machine.init claude → (ClaudeSetupToken.machine.run claude).Latched) ∧
    (CodexDeviceAuth.machine.Along CodexDeviceAuth.Session.Latching
      CodexDeviceAuth.machine.init device → (CodexDeviceAuth.machine.run device).Latched) ∧
    Latched ((CodexApiKey.machine custom timeoutMs).run key).aborted
      (((CodexApiKey.machine custom timeoutMs).run key).calls.map ApiKeyLogin.Call.view)
      ((CodexApiKey.machine custom timeoutMs).run key).children ∧
    Latched ((CodexCustomApiKey.machine cfg).run customKey).aborted
      (((CodexCustomApiKey.machine cfg).run customKey).calls.map ApiKeyLogin.Call.view) [] :=
  ⟨ClaudeSetupToken.latched_of_latching, CodexDeviceAuth.latched_of_latching,
    CodexApiKey.latches custom timeoutMs key, CodexCustomApiKey.latches cfg customKey⟩

/-- A `submit()` of claude that is cancelled in the delay before Enter, and a device-code login
that is cancelled while it waits for its page. -/
theorem cancellationLatches_cancelled :
    (ClaudeSetupToken.machine.run [.start, .spawned 0 false,
      .data 0 "https://claude.com/oauth/authorize?a\n".toList, .resumed 0 false, .returned 0,
      .submit ['c'], .cancel, .delayed 1 false]).Latched ∧
    (CodexDeviceAuth.machine.run [.start false, .wait, .cancel, .resumed 0 false, .resumed 1 false,
      .exit 0 none]).Latched :=
  ⟨(cancellationLatches _ [] false 0 ⟨fun _ => none, 0⟩ [] []).1 (by decide +kernel),
    (cancellationLatches [] _ false 0 ⟨fun _ => none, 0⟩ [] []).2.1 (by decide +kernel)⟩

/-- Output that arrives after `cancel()`, in the delay before Enter, hands out a credential; a
child whose place a second `start()` has taken outlives `cancel()`; and so does the child of a
device-code login that is started after `cancel()`, where a waiter that output has woken just
before `cancel()` still fulfils. -/
theorem cancel_notLatched :
    ¬(ClaudeSetupToken.machine.run [.start, .spawned 0 false,
      .data 0 "https://claude.com/oauth/authorize?a\n".toList, .resumed 0 false, .returned 0,
      .submit ['c'], .cancel, .data 0 "sk-ant-oat01-A\n".toList, .delayed 1 false,
      .returned 1]).Latched ∧
    ¬(ClaudeSetupToken.machine.run [.start, .start, .spawned 0 false, .spawned 1 false,
      .cancel]).Latched ∧
    ¬(CodexDeviceAuth.machine.run [.cancel, .start false]).Latched ∧
    ¬(CodexDeviceAuth.machine.run [.start false,
      .data 0 "https://auth.openai.com/codex/device\nABCD-EFGH\n".toList, .cancel, .resumed 0 false,
      .returned 0]).Latched := by
  refine ⟨fun h => ?_, fun h => ?_, fun h => ?_, fun h => ?_⟩
  · obtain ⟨_, hr⟩ := h.doomed ⟨true, false, some (.submitted
      (ClaudeSetupToken.Session.submitResult "sk-ant-oat01-A".toList))⟩ (by decide +kernel) rfl _ rfl
    exact Outcome.noConfusion hr
  · exact absurd (h.children (by decide +kernel) {} (by decide +kernel)) (by decide)
  · exact absurd (h.children (by decide +kernel) {} (by decide +kernel)) (by decide)
  · obtain ⟨_, hr⟩ := h.doomed ⟨true, false, some (.started (CodexDeviceAuth.Session.startResult
      "https://auth.openai.com/codex/device".toList "ABCD-EFGH".toList))⟩
      (by decide +kernel) rfl _ rfl
    exact Outcome.noConfusion hr

end CliProxy.Auth
