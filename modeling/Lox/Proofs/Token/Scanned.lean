import Lox.Proofs.Token.Partition

namespace Lox.Token

def Kind.Scanned : Kind → Prop
  | .identifier name => isWord name = true ∧ keywords.lookup name = none
  | .string text => '\x22' ∉ text.toList
  | .number value => value = .infinite false ∨ ∃ rank, value = .finite false rank
  | _ => True

theorem toNumber_cases (decimal : Decimal) :
    decimal.toNumber = .infinite false ∨ ∃ rank, decimal.toNumber = .finite false rank := by
  rw [Decimal.toNumber_eq, Number.ofRank]
  split
  · exact .inr ⟨_, rfl⟩
  · exact .inl rfl

theorem Pattern.scanned {text : List Char} {kind : Kind} (pattern : Pattern text kind) :
    kind.Scanned := by
  cases pattern with
  | string unquoted => simpa [Kind.Scanned, String.toList_ofList] using unquoted
  | whole | fraction => exact toNumber_cases _
  | @keyword name _ listed =>
    have all : ∀ entry ∈ keywords, entry.2.Scanned := by simp [keywords, Kind.Scanned]
    exact all (name, kind) listed
  | identifier word unlisted => exact ⟨word, lookup_other unlisted⟩
  | @symbol name _ listed =>
    have all : ∀ entry ∈ symbols, entry.2.Scanned := by simp [symbols, Kind.Scanned]
    exact all (name, kind) listed

theorem scanFrom_scanned (line : Nat) (source : List Char) {tokens : List Token}
    (scanned : scanFrom line source = .ok tokens) : ∀ token ∈ tokens, token.kind.Scanned := by
  rcases scanFrom_iff.mp scanned with ⟨pieces, last, parts⟩
  rw [parts.spells]
  intro token member
  rcases List.mem_append.mp member with inside | behind
  · rcases List.mem_map.mp inside with ⟨piece, listed, rfl⟩
    rcases List.append_of_mem listed with ⟨before, after, split⟩
    exact (parts.cut before piece after split).pattern.scanned
  · rw [List.mem_singleton.mp behind]
    trivial

end Lox.Token
