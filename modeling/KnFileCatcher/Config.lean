import KnFileCatcher.Windows

/-! The watch-root list and its prefix match with path boundaries. -/

namespace KnFileCatcher

def knfcMaxWatchRoots : Nat := 16
def knfcMaxWatchPathChars : Nat := 520

structure KnfcConfig where
  roots : List UnicodeString
  room : roots.length ≤ knfcMaxWatchRoots
  sized : ∀ r ∈ roots, r.buffer ≠ [] ∧ r.buffer.length ≤ knfcMaxWatchPathChars
deriving DecidableEq

def knFcConfigInitialize : KnfcConfig := ⟨[], by decide, by simp⟩

def KnfcConfig.append (g : KnfcConfig) (r : UnicodeString)
    (hroom : ¬ knfcMaxWatchRoots ≤ g.roots.length)
    (hne : r.length ≠ 0) (hlen : ¬ knfcMaxWatchPathChars * 2 < r.length) : KnfcConfig where
  roots := g.roots ++ [r]
  room := UnicodeString.length_concat_le hroom r
  sized := UnicodeString.sized_concat g.sized hne hlen

def knFcConfigAddRoot (alloc : Bool) (g : KnfcConfig) (path : UnicodeString) :
    NtStatus × KnfcConfig :=
  if hne : path.length = 0 then (statusInvalidParameter, g)
  else if hlen : knfcMaxWatchPathChars * 2 < path.length then (statusNameTooLong, g)
  else if !alloc then (statusInsufficientResources, g)
  else if hroom : knfcMaxWatchRoots ≤ g.roots.length then (statusQuotaExceeded, g)
  else (statusSuccess, g.append path hroom hne hlen)

theorem knFcConfigAddRoot_roots (alloc : Bool) (g : KnfcConfig) (path : UnicodeString) :
    (knFcConfigAddRoot alloc g path).2.roots = g.roots ∨
      (knFcConfigAddRoot alloc g path).2.roots = g.roots ++ [path] := by
  unfold knFcConfigAddRoot
  split
  · exact Or.inl rfl
  · split
    · exact Or.inl rfl
    · split
      · exact Or.inl rfl
      · split
        · exact Or.inl rfl
        · exact Or.inr rfl

def knFcConfigClearRoots (_ : KnfcConfig) : KnfcConfig := ⟨[], by decide, by simp⟩

def rootHits (up : Wchar → Wchar) (path root : UnicodeString) : Bool :=
  if root.length = 0 ∨ path.length < root.length then false
  else if !rtlPrefixUnicodeString up root.buffer path.buffer then false
  else
    let rootCch := root.length / 2
    if root.buffer[rootCch - 1]? = some backslash then true
    else if path.length = root.length then true
    else path.buffer[rootCch]? = some backslash

def knFcConfigPathStartsWithAnyRoot (up : Wchar → Wchar) (g : KnfcConfig)
    (path : UnicodeString) : Bool :=
  if path.length = 0 then false else g.roots.any (rootHits up path)

end KnFileCatcher
