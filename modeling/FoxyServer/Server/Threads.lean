import FoxyServer.Server.Listens

/-!
This module contains the number of threads that a config asks for, and when `get_threads` finds it. The
search returns what it finds in the first block it gets to, or that it finds nothing there.
-/

namespace Foxy

def NginxConfig.threadsToken? (config : NginxConfig) : Option Bytes :=
  config.inOrder.findSome? fun statement =>
    (validKeyword (Bytes.lit "threads") statement.tokens).map (·.1)

/--
`get_threads` succeeds with a number if and only if it is what stands in the first statement that has the
keyword and a token behind it.
-/
def ThreadsAsWritten (config : NginxConfig) : Prop :=
  ∀ threads number : Int, NginxConfig.getThreads threads config = .ok (true, number)
    ↔ ∃ token, config.threadsToken? = some token ∧ token ≠ [] ∧ isDecimal token = true
        ∧ number = Bytes.decimalValue token

inductive LeadsToThreads : NginxConfig → Bytes → Prop where
  | here {statements : NginxConfig} (hkeyword : validKeyword (Bytes.lit "threads") tokens = some (token, rest))
    : LeadsToThreads (⟨tokens, childBlock⟩ :: statements) token
  | inside {statements : NginxConfig} (hkeyword : validKeyword (Bytes.lit "threads") tokens = none)
    (hblock : LeadsToThreads block token) : LeadsToThreads (⟨tokens, some block⟩ :: statements) token
  | later (hkeyword : validKeyword (Bytes.lit "threads") tokens = none)
    (hrest : LeadsToThreads statements token) : LeadsToThreads (⟨tokens, none⟩ :: statements) token

/-! ## What `get_threads` finds -/

theorem threadsToken_of_leadsTo {config : NginxConfig} {token : Bytes} (h : LeadsToThreads config token)
    : config.threadsToken? = some token := by
  unfold NginxConfig.threadsToken?
  induction h with
  | @here tokens token rest childBlock statements hkeyword =>
    cases childBlock <;> simp [NginxConfig.inOrder, NginxConfigStatement.inOrder, hkeyword]
  | inside hkeyword hblock ih =>
    simp only [NginxConfig.inOrder, NginxConfigStatement.inOrder, List.cons_append, List.findSome?_cons,
      hkeyword, Option.map_none, List.findSome?_append, ih, Option.some_or]
  | later hkeyword hrest ih =>
    simp only [NginxConfig.inOrder, NginxConfigStatement.inOrder, List.cons_append, List.nil_append,
      List.findSome?_cons, hkeyword, Option.map_none, ih]

theorem getThreads_of_leadsTo {config : NginxConfig} {token : Bytes} (h : LeadsToThreads config token)
    (threads : Int)
    : NginxConfig.getThreads threads config
        =
      if isDecimal token then
        Bytes.stoi token >>= fun number => .ok (true, number)
      else
        .ok (false, threads) := by
  induction h with
  | here hkeyword => exact getThreads_keyword _ threads hkeyword
  | inside hkeyword hblock ih => rw [getThreads_block _ threads hkeyword, ih]
  | later hkeyword hrest ih => rw [getThreads_pass _ threads hkeyword, ih]

theorem getThreads_of_not_leadsTo {config : NginxConfig} (h : ∀ token, ¬LeadsToThreads config token)
    (threads : Int) : NginxConfig.getThreads threads config = .ok (false, threads) := by
  induction config using NginxConfig.block_induction with
  | nil => rfl
  | cons tokens childBlock statements ihblock ih =>
    have hkeyword : validKeyword (Bytes.lit "threads") tokens = none := by
      cases hvalid : validKeyword (Bytes.lit "threads") tokens with
      | none => rfl
      | some operand => exact absurd (.here hvalid) (h operand.1)
    cases childBlock with
    | none =>
      rw [getThreads_pass statements threads hkeyword]
      exact ih (fun token hrest => h token (.later hkeyword hrest))
    | some block =>
      rw [getThreads_block statements threads hkeyword]
      exact ihblock (fun token hinner => h token (.inside hkeyword hinner))

/--
`get_threads` finds what is written if and only if, when the first statement with the keyword has a number,
the number fits an `int` and no block that ends in front of the statement begins before it.
-/
theorem threadsAsWritten_iff (config : NginxConfig)
    : ThreadsAsWritten config
        ↔
      ∀ token, config.threadsToken? = some token → token ≠ [] → isDecimal token = true →
        Bytes.decimalValue token ≤ 2147483647 ∧ LeadsToThreads config token := by
  constructor
  . intro h token hfirst hne hdecimal
    have hfound := (h 0 (Bytes.decimalValue token)).mpr ⟨token, hfirst, hne, hdecimal, rfl⟩
    -- a block in front of the first statement hides it, and then nothing is found
    by_cases hleads : ∃ token', LeadsToThreads config token'
    . rcases hleads with ⟨token', hleads⟩
      have htoken : token' = token := by
        rw [threadsToken_of_leadsTo hleads, Option.some.injEq] at hfirst
        exact hfirst
      subst htoken
      refine ⟨?_, hleads⟩
      by_contra hlarge
      rw [getThreads_of_leadsTo hleads, if_pos hdecimal, stoi_of_isDecimal hdecimal, if_neg hne,
        if_neg hlarge] at hfound
      cases hfound
    . rw [getThreads_of_not_leadsTo (not_exists.mp hleads), Outcome.ok.injEq, Prod.mk.injEq] at hfound
      cases hfound.1
  . intro h threads number
    constructor
    . intro hfound
      by_cases hleads : ∃ token, LeadsToThreads config token
      . rcases hleads with ⟨token, hleads⟩
        rw [getThreads_of_leadsTo hleads] at hfound
        split at hfound
        next hdecimal =>
          rw [stoi_of_isDecimal hdecimal] at hfound
          by_cases hempty : token = []
          . rw [if_pos hempty] at hfound
            cases hfound
          . by_cases hfits : Bytes.decimalValue token ≤ 2147483647
            . rw [if_neg hempty, if_pos hfits, Outcome.ok_bind, Outcome.ok.injEq, Prod.mk.injEq] at hfound
              exact ⟨token, threadsToken_of_leadsTo hleads, hempty, hdecimal, hfound.2.symm⟩
            . rw [if_neg hempty, if_neg hfits] at hfound
              cases hfound
        . cases hfound
      . rw [getThreads_of_not_leadsTo (not_exists.mp hleads)] at hfound
        cases hfound
    . rintro ⟨token, hfirst, hne, hdecimal, rfl⟩
      rcases h token hfirst hne hdecimal with ⟨hfits, hleads⟩
      rw [getThreads_of_leadsTo hleads, if_pos hdecimal, stoi_of_isDecimal hdecimal, if_neg hne, if_pos hfits]
      rfl

/-- The block in front of the statement hides it. -/
theorem getThreads_after_block
    : ¬ThreadsAsWritten
        [⟨[Bytes.lit "server"], some [⟨[Bytes.lit "listen", Bytes.lit "https", Bytes.lit "80"], none⟩]⟩,
          ⟨[Bytes.lit "threads", Bytes.lit "8"], none⟩] := by
  intro h
  have hfound := (h 4 8).mpr ⟨Bytes.lit "8", by decide, by decide, by decide, by decide⟩
  cases hfound

end Foxy
