import PgPipeline.Proofs.Record
import PgPipeline.Connection.History

namespace PgPipeline

variable {ρ : Type}

namespace Connection

inductive Greeted (c : Connection ρ) : BackendMessage → Turn ρ → Prop
  | refused {m : BackendMessage} (auth : AuthPhase) (i : Interruption)
      (unknown : m.asksPassword → c.config.password = none) :
      Greeted c m ⟨{ c with auth }, some i⟩
  | satisfied (free : c.auth = .started ∨ c.auth = .verified) :
      Greeted c .authenticationOk (.done { c with auth := .verified })
  | disclosed {m : BackendMessage} {password : String} (secret : String) (asked : m.asksPassword)
      (known : c.config.password = some password) :
      Greeted c m (.done (c.queue [.password secret]))
  | began {offered : List String} {mechanism : Mechanism} {mode : BindingMode} {password : String}
      {client : Scram.Client}
      (chosen : Mechanism.select offered c.config.mechanisms c.config.binding
        c.transport.binding? = .ok (mechanism, mode))
      (known : c.config.password = some password)
      (made : client = .start c.config.user password (c.nonces c.exchanges) mode) :
      Greeted c (.sasl offered) (.done
        { c.queue [.saslInitial mechanism.name (Utf8.encodeChars client.first)] with
          exchanges := c.exchanges + 1
          info := { c.info with mechanism := some mechanism }
          auth := .challenged client })
  | proved {data : Bytes} {final : List Char} {client answered : Scram.Client}
      (waiting : c.auth = .challenged client)
      (accepted : client.receiveFirst data = .ok (final, answered)) :
      Greeted c (.saslContinue data) (.done
        { c.queue [.saslResponse (Utf8.encodeChars final)] with auth := .proven answered })
  | verified {data : Bytes} {client : Scram.Client} (waiting : c.auth = .proven client)
      (signed : client.verifyFinal data = .ok ()) :
      Greeted c (.saslFinal data) (.done { c with auth := .verified })
  | opened (status : TransactionStatus) (verified : c.auth = .verified) :
      Greeted c (.readyForQuery status)
        (.done ({ c with transaction := status } : Connection ρ).becomeReady)

theorem Greeted.refuse {c : Connection ρ} {m : BackendMessage} (f : Failure)
    (h : m.asksPassword = false) : Greeted c m (.fail c f) :=
  .refused c.auth _ fun asked => absurd (h.symm.trans asked) (by decide)

theorem withPassword_greeted (c : Connection ρ) {m : BackendMessage} (asked : m.asksPassword)
    (secret : String → String) :
    Greeted c m (c.withPassword fun password => .done (c.queue [.password (secret password)])) := by
  unfold withPassword
  split
  · next known => exact .disclosed _ asked known
  · next unknown => exact .refused c.auth _ fun _ => unknown

theorem beginExchange_greeted (c : Connection ρ) (offered : List String) :
    Greeted c (.sasl offered) (c.beginExchange offered) := by
  unfold beginExchange withPassword
  split
  · exact .refuse _ rfl
  · next chosen =>
    split
    · next known => exact .began chosen known rfl
    · exact .refuse _ rfl

theorem onChallenge_greeted (c : Connection ρ) (data : Bytes) :
    Greeted c (.saslContinue data) (c.onChallenge data) := by
  unfold onChallenge
  split
  · next waiting =>
    split
    · exact .refused .started _ (by simp [BackendMessage.asksPassword])
    · next accepted => exact .proved waiting accepted
  · exact .refused .started _ (by simp [BackendMessage.asksPassword])

theorem onSignature_greeted (c : Connection ρ) (data : Bytes) :
    Greeted c (.saslFinal data) (c.onSignature data) := by
  unfold onSignature
  split
  · next waiting =>
    split
    · exact .refused .started _ (by simp [BackendMessage.asksPassword])
    · next signed => exact .verified waiting signed
  · exact .refused .started _ (by simp [BackendMessage.asksPassword])

theorem onAuthenticationOk_greeted (c : Connection ρ) :
    Greeted c .authenticationOk c.onAuthenticationOk := by
  unfold onAuthenticationOk
  split
  · next started => exact .satisfied (.inl started)
  · next verified => exact .satisfied (.inr verified)
  · exact .refuse _ rfl

theorem onAuthMessage_greeted (c : Connection ρ) (m : BackendMessage) :
    Greeted c m (c.onAuthMessage m) := by
  unfold onAuthMessage
  cases m
  case authenticationOk => exact c.onAuthenticationOk_greeted
  case cleartextPassword => exact c.withPassword_greeted rfl id
  case md5Password salt =>
    exact c.withPassword_greeted rfl fun password => passwordDigest c.config.user password salt
  case sasl offered => exact c.beginExchange_greeted offered
  case saslContinue data => exact c.onChallenge_greeted data
  case saslFinal data => exact c.onSignature_greeted data
  case readyForQuery status =>
    dsimp only
    split
    · next verified => exact .opened status verified
    · exact .refuse _ rfl
  all_goals exact .refuse _ rfl

end Connection

end PgPipeline
