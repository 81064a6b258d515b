import FoxyServer.Library.Bytes

/-!
This module contains the parsed representation of a config file and the printer for it.
-/

namespace Foxy

structure NginxConfigStatement where
  tokens : List Bytes
  childBlock : Option (List NginxConfigStatement)

abbrev NginxConfig := List NginxConfigStatement

theorem NginxConfig.block_induction {motive : NginxConfig → Prop} (nil : motive [])
    (cons : ∀ tokens childBlock statements, motive (childBlock.getD []) → motive statements →
      motive (⟨tokens, childBlock⟩ :: statements))
    (config : NginxConfig) : motive config := by
  match config with
  | [] => exact nil
  | ⟨tokens, none⟩ :: statements =>
    exact cons tokens none statements nil (block_induction nil cons statements)
  | ⟨tokens, some childBlock⟩ :: statements =>
    exact cons tokens (some childBlock) statements (block_induction nil cons childBlock)
      (block_induction nil cons statements)

mutual

def NginxConfigStatement.toString (depth : Nat) (statement : NginxConfigStatement) : Bytes :=
  match statement with
  | ⟨tokens, some childBlock⟩ =>
    List.replicate depth '\t'.toUInt8 ++ List.intercalate (Bytes.lit " ") tokens
      ++ Bytes.lit " \x7b\n" ++ NginxConfig.toString (depth + 1) childBlock
      ++ List.replicate depth '\t'.toUInt8 ++ Bytes.lit "\x7d" ++ Bytes.lit "\n"
  | ⟨tokens, none⟩ =>
    List.replicate depth '\t'.toUInt8 ++ List.intercalate (Bytes.lit " ") tokens
      ++ (if tokens.length > 0 then Bytes.lit ";" else []) ++ Bytes.lit "\n"

def NginxConfig.toString (depth : Nat) : NginxConfig → Bytes
  | [] => []
  | statement :: statements => statement.toString depth ++ NginxConfig.toString depth statements

end

example :
    NginxConfig.toString 0 [⟨[Bytes.lit "server"], some [⟨[Bytes.lit "listen", Bytes.lit "80"], none⟩]⟩]
      = Bytes.lit "server \x7b\n\tlisten 80;\n\x7d\n" := by
  decide

end Foxy
