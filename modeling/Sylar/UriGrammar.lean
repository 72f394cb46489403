import Sylar.Lib.Grammar

/-!
# The grammar of a URI

The productions of `uri.rl`, by their names there. Alternatives that are
single bytes are one class; a repetition and an optional part have a
nonterminal of their own.

Two of them are not what they are in the document that the grammar
follows. `2 [0-4] digit` in `dec_octet` is the byte 2, since 2 is not in
quotes. And `{n}` is a count, not a bound: in front of `::` stand none or
exactly as many groups as the alternative says.
-/

namespace Sylar

open Grammar (Sym)

inductive UriNt where
  | pctEncoded | scheme | schemeRest | userinfo
  | decOctet | ipv4Address | h16 | ls32
  /-- `(h16 ":"){n}` -/
  | h16Colons (n : Nat)
  /-- `((h16 ":"){n} h16)?` -/
  | leading (n : Nat)
  | ipv6Address | xdigits | ipvFuture | ipvFutureRest | ipLiteral | regName | host | port
  | userinfoAt | colonPort | authority
  | pchar | segment | segmentNz | pcharNc | segmentNzNc | segmentNzNcRest | segments
  | pathAbempty | pathAbsolute | pathNoscheme | pathRootless | query | fragment
  | hierPart | relativePart | questionQuery | hashFragment | relativeRef | uri | uriReference
deriving DecidableEq

namespace UriGrammar

def ones (l : List Nat) : List (Nat × Nat) := l.map fun n => (n, n)

def digit : List (Nat × Nat) := [(48, 57)]

def alpha : List (Nat × Nat) := [(65, 90), (97, 122)]

def xdigit : List (Nat × Nat) := [(48, 57), (65, 70), (97, 102)]

/-- `!$&'()*+,;=` -/
def subDelims : List (Nat × Nat) := ones [33, 36, 38, 39, 40, 41, 42, 43, 44, 59, 61]

/-- `-._~` and the letters and digits. -/
def unreserved : List (Nat × Nat) := alpha ++ digit ++ ones [45, 46, 95, 126]

/-- `any -- ascii`. -/
def notAscii : List (Nat × Nat) := [(128, 255)]

def cls (on : List (Nat × Nat)) : Sym UriNt := .cls (Grammar.ofRanges on)

def chr (n : Nat) : Sym UriNt := cls [(n, n)]

def rules : UriNt → List (List (Sym UriNt))
  | .pctEncoded => [[chr 37, cls xdigit, cls xdigit]]
  | .scheme => [[cls alpha, .nt .schemeRest]]
  | .schemeRest => [[], [cls (alpha ++ digit ++ ones [43, 45, 46]), .nt .schemeRest]]
  | .userinfo => [[], [cls (unreserved ++ subDelims ++ ones [58]), .nt .userinfo],
      [.nt .pctEncoded, .nt .userinfo]]
  | .decOctet => [[cls digit], [cls [(49, 57)], cls digit], [chr 49, cls digit, cls digit],
      [chr 2, cls [(48, 52)], cls digit], [chr 50, chr 53, cls [(48, 53)]]]
  | .ipv4Address => [[.nt .decOctet, chr 46, .nt .decOctet, chr 46, .nt .decOctet, chr 46,
      .nt .decOctet]]
  | .h16 => [[cls xdigit], [cls xdigit, cls xdigit], [cls xdigit, cls xdigit, cls xdigit],
      [cls xdigit, cls xdigit, cls xdigit, cls xdigit]]
  | .ls32 => [[.nt .h16, chr 58, .nt .h16], [.nt .ipv4Address]]
  | .h16Colons 0 => [[]]
  | .h16Colons (n + 1) => [[.nt .h16, chr 58, .nt (.h16Colons n)]]
  | .leading n => [[], [.nt (.h16Colons n), .nt .h16]]
  | .ipv6Address => [[.nt (.h16Colons 6), .nt .ls32],
      [chr 58, chr 58, .nt (.h16Colons 5), .nt .ls32],
      [.nt (.leading 0), chr 58, chr 58, .nt (.h16Colons 4), .nt .ls32],
      [.nt (.leading 1), chr 58, chr 58, .nt (.h16Colons 3), .nt .ls32],
      [.nt (.leading 2), chr 58, chr 58, .nt (.h16Colons 2), .nt .ls32],
      [.nt (.leading 3), chr 58, chr 58, .nt (.h16Colons 1), .nt .ls32],
      [.nt (.leading 4), chr 58, chr 58, .nt .ls32],
      [.nt (.leading 5), chr 58, chr 58, .nt .h16],
      [.nt (.leading 6), chr 58, chr 58]]
  | .xdigits => [[], [cls xdigit, .nt .xdigits]]
  | .ipvFuture => [[chr 118, cls xdigit, .nt .xdigits, chr 46,
      cls (unreserved ++ subDelims ++ ones [58]), .nt .ipvFutureRest]]
  | .ipvFutureRest => [[], [cls (unreserved ++ subDelims ++ ones [58]), .nt .ipvFutureRest]]
  | .ipLiteral => [[chr 91, .nt .ipv6Address, chr 93], [chr 91, .nt .ipvFuture, chr 93]]
  | .regName => [[], [cls (unreserved ++ subDelims), .nt .regName],
      [.nt .pctEncoded, .nt .regName]]
  | .host => [[.nt .ipLiteral], [.nt .ipv4Address], [.nt .regName]]
  | .port => [[], [cls digit, .nt .port]]
  | .userinfoAt => [[], [.nt .userinfo, chr 64]]
  | .colonPort => [[], [chr 58, .nt .port]]
  | .authority => [[.nt .userinfoAt, .nt .host, .nt .colonPort]]
  | .pchar => [[cls (notAscii ++ unreserved ++ subDelims ++ ones [58, 64])], [.nt .pctEncoded]]
  | .segment => [[], [.nt .pchar, .nt .segment]]
  | .segmentNz => [[.nt .pchar, .nt .segment]]
  | .pcharNc => [[cls (notAscii ++ unreserved ++ subDelims ++ ones [64])], [.nt .pctEncoded]]
  | .segmentNzNc => [[.nt .pcharNc, .nt .segmentNzNcRest]]
  | .segmentNzNcRest => [[], [.nt .pcharNc, .nt .segmentNzNcRest]]
  | .segments => [[], [chr 47, .nt .segment, .nt .segments]]
  | .pathAbempty => [[chr 47, .nt .segment, .nt .segments], [.nt .segments]]
  | .pathAbsolute => [[chr 47], [chr 47, .nt .segmentNz, .nt .segments]]
  | .pathNoscheme => [[.nt .segmentNzNc, .nt .segments]]
  | .pathRootless => [[.nt .segmentNz, .nt .segments]]
  | .query => [[], [.nt .pchar, .nt .query], [cls (ones [47, 63]), .nt .query]]
  | .fragment => [[], [.nt .pchar, .nt .fragment], [cls (ones [47, 63]), .nt .fragment]]
  | .hierPart => [[chr 47, chr 47, .nt .authority, .nt .pathAbempty], [.nt .pathAbsolute],
      [.nt .pathRootless], []]
  | .relativePart => [[chr 47, chr 47, .nt .authority, .nt .pathAbempty], [.nt .pathAbsolute],
      [.nt .pathNoscheme], []]
  | .questionQuery => [[], [chr 63, .nt .query]]
  | .hashFragment => [[], [chr 35, .nt .fragment]]
  | .relativeRef => [[.nt .relativePart, .nt .questionQuery, .nt .hashFragment]]
  | .uri => [[.nt .scheme, chr 58, .nt .hierPart, .nt .questionQuery, .nt .hashFragment]]
  | .uriReference => [[.nt .uri], [.nt .relativeRef]]

end UriGrammar

end Sylar
