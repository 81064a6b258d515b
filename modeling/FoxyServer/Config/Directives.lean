import FoxyServer.Config.Basic
import FoxyServer.Utility
import Mathlib.Data.List.TakeWhile

/-!
This module contains the readers of single directives. Each of them looks for its keyword anywhere in a
statement and takes the tokens behind it.
-/

namespace Foxy

/-- The tokens behind the keyword, if it is there and not the last one. -/
def validKeyword (keyword : Bytes) (tokens : List Bytes) : Option (Bytes × List Bytes) :=
  match tokens.dropWhile (· ≠ keyword) with
  | _ :: operand :: rest => some (operand, rest)
  | _ => none

def isDecimal (s : Bytes) : Bool :=
  s.all Bytes.isDigit

theorem stoi_of_isDecimal {s : Bytes} (h : isDecimal s)
    : Bytes.stoi s
        =
      if s = [] then
        .throws .invalidArgument
      else if Bytes.decimalValue s ≤ 2147483647 then
        .ok (Bytes.decimalValue s)
      else
        .throws .outOfRange := by
  rw [isDecimal, List.all_eq_true] at h
  cases s with
  | nil => rfl
  | cons c s =>
    have hc := h c List.mem_cons_self
    have hspace : Bytes.isSpace c = false := by
      rw [← Bool.not_eq_true]
      intro hspace
      simp only [Bytes.isDigit, Bytes.isSpace, Bool.and_eq_true, Bool.or_eq_true, decide_eq_true_eq,
        UInt8.le_iff_toNat_le, ← UInt8.toNat_inj] at hc hspace
      simp at hc hspace
      omega
    have hsign {d : UInt8} (hd : Bytes.isDigit d = false) : c ≠ d := by
      rintro rfl
      simp [hd] at hc
    have hminus : c ≠ '-'.toUInt8 := hsign (by decide)
    have hplus : c ≠ '+'.toUInt8 := hsign (by decide)
    have htake : (c :: s).takeWhile Bytes.isDigit = c :: s := List.takeWhile_eq_self_iff.mpr h
    unfold Bytes.stoi
    simp only [List.dropWhile_cons, hspace, List.head?_cons, Option.some.injEq, hminus, hplus, or_self,
      Bool.false_eq_true, if_false, htake, reduceCtorEq]
    split_ifs with hbounds hle hle
    . rfl
    . omega
    . omega
    . rfl

/-! ## `get_port` -/

inductive Listen where
  | absent
  | invalid
  | port (port : Int) (type : Bytes)
  deriving DecidableEq

/-- The token two behind the keyword is read if there are three tokens, wherever the keyword is. -/
def listenOf (tokens : List Bytes) : Outcome Listen :=
  match validKeyword (Bytes.lit "listen") tokens with
  | none => .ok .absent
  | some (type, rest) =>
    if tokens.length = 3 then
      match rest with
      | [] => .undefined
      | portstring :: _ =>
        if isDecimal portstring then do
          let port ← Bytes.stoi portstring
          if type ≠ Bytes.lit "https" ∧ type ≠ Bytes.lit "http" then
            return .invalid
          else
            return .port port type
        else
          .ok .invalid
    else
      .ok .absent

mutual

def NginxConfigStatement.visitPort (vec : List (Int × Bytes)) (statement : NginxConfigStatement)
    : Outcome (Bool × List (Int × Bytes)) :=
  match statement with
  | ⟨tokens, childBlock⟩ => do
    match ← listenOf tokens with
    | .port port type => return (true, vec ++ [(port, type)])
    | .invalid => return (false, vec)
    | .absent =>
      match childBlock with
      | some childBlock =>
        let (_, vec) ← NginxConfig.getPort vec childBlock
        return (true, vec)
      | none => return (true, vec)

def NginxConfig.getPort (vec : List (Int × Bytes)) : NginxConfig → Outcome (Bool × List (Int × Bytes))
  | [] => .ok (!vec.isEmpty, vec)
  | statement :: statements => do
    let (goesOn, vec) ← statement.visitPort vec
    if goesOn then NginxConfig.getPort vec statements else return (false, vec)

end

/-! ## `get_threads`, `get_dir`, `get_hostname` -/

mutual

def NginxConfigStatement.visitThreads (threads : Int) (statement : NginxConfigStatement)
    : Outcome (Option (Bool × Int)) :=
  match statement with
  | ⟨tokens, childBlock⟩ =>
    match validKeyword (Bytes.lit "threads") tokens with
    | some (threadstring, _) =>
      if isDecimal threadstring then do
        let threads ← Bytes.stoi threadstring
        return some (true, threads)
      else
        .ok (some (false, threads))
    | none =>
      match childBlock with
      | some childBlock => do
        let result ← NginxConfig.getThreads threads childBlock
        return some result
      | none => .ok none

def NginxConfig.getThreads (threads : Int) : NginxConfig → Outcome (Bool × Int)
  | [] => .ok (false, threads)
  | statement :: statements => do
    match ← statement.visitThreads threads with
    | some result => return result
    | none => NginxConfig.getThreads threads statements

end

section Statement

variable {tokens : List Bytes} (statements : NginxConfig) (threads : Int)

theorem getThreads_keyword {childBlock : Option NginxConfig} {token : Bytes} {rest : List Bytes}
    (hkeyword : validKeyword (Bytes.lit "threads") tokens = some (token, rest))
    : NginxConfig.getThreads threads (⟨tokens, childBlock⟩ :: statements)
        =
      if isDecimal token then
        Bytes.stoi token >>= fun number => .ok (true, number)
      else
        .ok (false, threads) := by
  rw [NginxConfig.getThreads]
  unfold NginxConfigStatement.visitThreads
  simp only [hkeyword]
  split
  . rw [Outcome.bind_assoc]
    rfl
  . rfl

theorem getThreads_block {block : NginxConfig} (hkeyword : validKeyword (Bytes.lit "threads") tokens = none)
    : NginxConfig.getThreads threads (⟨tokens, some block⟩ :: statements)
        =
      NginxConfig.getThreads threads block := by
  rw [NginxConfig.getThreads]
  unfold NginxConfigStatement.visitThreads
  simp only [hkeyword]
  cases NginxConfig.getThreads threads block <;> rfl

theorem getThreads_pass (hkeyword : validKeyword (Bytes.lit "threads") tokens = none)
    : NginxConfig.getThreads threads (⟨tokens, none⟩ :: statements)
        =
      NginxConfig.getThreads threads statements := by
  rw [NginxConfig.getThreads]
  unfold NginxConfigStatement.visitThreads
  simp only [hkeyword]
  rfl

end Statement

def NginxConfig.quotedOperand (keyword value : Bytes) : NginxConfig → Outcome (Bool × Bytes)
  | [] => .ok (true, value)
  | statement :: statements =>
    match validKeyword keyword statement.tokens with
    | some (operand, _) => utility.isQuoted operand
    | none => NginxConfig.quotedOperand keyword value statements

def NginxConfig.getDir (dir : Bytes) (config : NginxConfig) : Outcome (Bool × Bytes) :=
  NginxConfig.quotedOperand (Bytes.lit "dir") dir config

def NginxConfig.getHostname (hostname : Bytes) (config : NginxConfig) : Outcome (Bool × Bytes) :=
  NginxConfig.quotedOperand (Bytes.lit "hostname") hostname config

end Foxy
