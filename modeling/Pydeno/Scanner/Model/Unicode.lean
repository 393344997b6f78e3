import Mathlib

/-!
# The generated character-class tables

`src/scanner/unicode.rs`, as generated from CPython: one 4-bit column per
Unicode version (13.0, 14.0, 15.0, 15.1, 16.0 and 17.0), holding the four
classes the scanners ask about (1 for `isalnum`, 2 for `isspace`, 4 for
`isdigit`, 8 for `isidentifier`). The ASCII range is the same in every version; above it a run of equal flags
starts at each entry of `STARTS` and ends at the next.
-/

namespace Pydeno.Scanner.Unicode

/-- Flags of the ASCII range. -/
def ASCII : List ℕ := [
  0,0,0,0,0,0,0,0,0,2,2,2,2,2,0,0,0,0,0,0,0,0,0,0,0,0,0,0,2,2,2,2,2,0,0,0,0,0,0,0,0,0,0,0,0,0,0,0,5,
  5,5,5,5,5,5,5,5,5,0,0,0,0,0,0,0,9,9,9,9,9,9,9,9,9,9,9,9,9,9,9,9,9,9,9,9,9,9,9,9,9,9,0,0,0,0,8,0,9,
  9,9,9,9,9,9,9,9,9,9,9,9,9,9,9,9,9,9,9,9,9,9,9,9,9,0,0,0,0,0]

/-- Where each run of equal flags above ASCII starts, from the lengths of the runs. -/
def STARTS : List ℕ :=
  [5,1,26,1,9,1,7,2,1,1,3,1,1,1,3,1,23,1,31,1,458,4,12,14,5,7,1,1,1,129,5,1,2,2,1,3,1,1,6,1,1,3,1,1,
  1,20,1,83,1,139,8,166,1,38,2,1,6,41,71,27,4,4,45,43,21,10,4,2,1,99,1,1,15,2,7,2,10,3,2,1,16,1,1,
  30,29,89,11,1,14,10,33,9,2,4,1,5,22,4,1,9,1,3,1,23,25,7,11,5,24,1,6,1,16,21,1,18,2,58,54,3,1,18,1,
  7,10,4,10,1,16,4,8,2,2,2,22,1,7,1,1,3,4,3,1,16,1,13,2,1,3,4,10,2,2,6,2,1,8,6,4,2,2,22,1,7,1,2,1,2,
  1,2,31,4,1,1,7,10,2,3,16,9,1,3,1,22,1,7,1,2,1,5,3,1,18,1,15,2,4,10,9,1,11,8,2,2,2,22,1,7,1,2,1,5,
  3,1,30,2,1,3,4,10,1,1,6,11,1,1,6,3,3,1,4,3,2,1,1,1,2,3,2,3,3,3,12,22,1,21,10,3,18,8,1,3,1,23,1,16,
  3,1,26,3,1,1,1,2,2,4,10,8,7,1,1,4,8,1,3,1,23,1,10,1,5,3,1,30,1,1,1,1,2,4,10,1,2,17,9,1,3,1,41,2,1,
  16,1,5,3,1,7,3,4,10,9,1,6,5,18,3,24,1,9,1,1,2,7,31,10,17,48,1,1,1,12,7,9,10,39,2,1,1,1,5,1,24,1,1,
  1,10,1,1,1,9,1,2,5,1,1,9,10,2,4,32,1,31,10,10,12,8,1,36,27,5,115,43,20,1,10,6,6,4,4,3,1,3,2,7,3,4,
  13,12,1,1,10,6,38,1,1,5,1,2,43,1,333,1,4,2,7,1,1,1,4,2,41,1,4,2,33,1,4,2,7,1,1,1,4,2,15,1,57,1,4,
  2,67,14,9,11,3,16,16,86,2,6,3,620,2,17,1,26,5,75,3,11,7,13,1,4,13,1,18,14,18,14,13,1,3,15,52,35,1,
  4,1,3,10,6,10,22,10,6,89,7,5,2,34,1,1,5,70,10,31,39,10,30,2,5,11,44,4,26,6,11,37,23,9,53,43,10,6,
  10,13,1,93,47,17,7,1,3,10,41,30,13,2,10,44,26,36,28,10,3,3,10,36,2,9,2,5,43,2,3,41,4,1,6,1,2,3,1,
  5,192,64,278,2,6,2,38,2,6,2,8,1,1,1,1,1,1,1,31,2,53,1,7,1,1,3,3,1,7,3,4,2,6,4,13,5,3,1,7,3,11,29,
  2,5,1,47,1,16,1,1,2,6,5,1,10,6,13,101,1,4,1,2,10,1,1,2,1,5,6,1,1,1,1,1,1,4,1,11,2,4,5,5,4,1,1,16,
  41,1,726,9,11,9,11,9,11,78,1,10,9,1,1,630,9,1,9,1,9,1,1132,47,1,47,1,133,6,4,3,2,9,1,2,38,1,1,5,1,
  2,56,7,1,16,23,9,7,1,7,1,7,1,7,1,7,1,7,1,7,1,7,80,1,464,1,4,3,25,9,7,5,2,5,4,86,6,3,1,90,1,4,5,43,
  1,94,3,4,10,32,48,16,32,10,30,8,1,15,32,10,39,15,320,6592,64,20989,3,1165,67,46,2,269,3,16,10,2,
  20,47,16,31,2,80,39,9,2,103,2,53,2,9,3,2,2,1,1,1,5,3,20,1,3,13,1,3,1,4,1,23,13,6,10,52,14,50,28,
  10,24,6,3,1,1,2,1,10,28,10,23,25,29,7,47,28,1,10,6,5,1,10,10,5,1,41,23,3,1,8,4,10,6,23,3,1,3,50,1,
  1,3,2,2,5,2,1,1,1,24,3,2,11,7,3,12,6,2,6,2,6,9,7,1,7,1,43,1,14,6,115,13,10,6,11172,12,23,4,49,
  8452,366,2,106,38,7,12,5,5,1,1,10,1,13,1,5,1,1,1,2,1,2,1,108,33,139,6,218,18,64,2,54,40,10,2,116,
  1,1,1,1,1,1,1,1,1,1,1,1,1,1,1,126,19,10,7,26,6,26,11,56,2,31,3,6,2,6,2,6,2,3,35,12,1,26,1,19,1,2,
  1,15,2,14,34,123,12,45,12,53,4,17,2,244,29,3,49,16,27,4,32,4,9,30,5,38,10,30,2,36,4,8,1,5,42,158,
  2,10,6,36,4,36,4,40,8,52,12,11,1,15,1,7,1,2,1,11,1,15,1,7,1,2,3,52,12,311,9,22,10,8,24,6,1,42,1,9,
  69,6,2,1,1,44,1,2,3,1,2,23,2,8,23,2,7,31,8,9,48,19,1,2,5,5,22,6,4,26,6,26,38,56,4,2,2,16,2,46,1,
  15,4,1,3,1,29,10,4,5,23,29,2,1,29,3,32,8,1,28,6,5,16,54,10,22,2,8,19,5,8,18,23,7,80,73,55,51,13,
  51,7,6,36,12,10,6,10,28,9,23,218,9,22,1,42,6,2,16,3,3,56,29,10,1,8,22,11,4,27,18,46,21,7,20,23,12,
  53,26,9,11,10,1,2,2,1,13,45,32,25,7,10,9,36,15,10,4,1,2,1,8,35,3,1,12,48,14,4,11,10,1,1,1,4,20,11,
  18,1,25,19,2,63,7,1,1,1,4,1,15,1,10,7,47,17,10,11,8,2,2,2,22,1,7,1,2,1,5,3,1,18,1,12,5,30,10,1,1,
  2,1,1,38,1,1,25,1,1,1,44,53,18,4,5,10,5,3,30,48,20,2,1,1,8,10,166,47,41,4,36,48,20,1,11,10,38,43,
  13,1,7,10,6,20,28,27,21,10,2,4,7,185,44,116,64,10,9,12,8,2,1,2,8,1,2,1,24,15,1,1,1,14,10,70,8,2,
  39,16,1,1,1,28,1,10,40,7,1,21,1,11,46,19,1,18,16,57,199,33,15,10,6,9,1,37,17,1,15,10,19,5,30,112,
  7,1,2,1,38,21,1,9,10,6,6,1,2,1,32,14,1,7,10,6,44,4,10,246,19,15,1,1,13,1,34,28,10,86,1,15,21,43,
  922,102,111,17,196,2636,97,15,1071,1,17,6,25,3995,5,583,6841,30,18,10,1734,569,7,31,1,10,6,79,1,
  10,6,30,18,48,16,4,12,10,1,7,1,21,5,19,432,45,3,10,198,64,23,9,25,2,25,44,75,5,1,66,13,64,2,1,1,
  14,5,9,6136,8,1238,41,1,9,22,97,115,8701,4,1,7,1,2,1,287,4,15,1,29,3,2,1,14,4,8,396,2308,107,5,13,
  3,9,7,10,4182,10,1478,20,12,20,108,25,135,85,1,71,1,2,2,1,2,2,2,4,1,12,1,1,1,7,1,65,1,4,2,8,1,7,1,
  28,1,4,1,5,1,1,3,7,1,340,2,25,1,25,1,31,1,25,1,31,1,25,1,31,1,25,1,31,1,25,1,8,2,50,1792,31,6,6,
  261,62,146,45,10,7,2,10,4,1,321,30,18,44,4,10,470,28,4,10,214,30,2,1,10,197,31,1,3,1,2,1,7,2,5,9,
  2,224,7,1,4,1,2,1,15,1,197,2,9,48,68,7,1,4,10,791,59,1,3,1,4,76,45,1,15,194,4,1,27,1,2,1,1,2,1,1,
  10,1,4,1,1,1,1,6,1,4,1,1,1,1,1,1,3,1,2,1,1,2,1,1,1,1,1,1,1,1,1,1,2,1,1,2,4,1,7,1,4,1,4,1,1,1,10,1,
  17,5,3,1,5,1,17,580,11,2,2787,10,1030,42718,2,32,4149,4,1,6,222,2,5762,12,2,7473,15,622,2466,542,
  1506,4939,5,4192,4298].scanl (· + ·) 0x80

/-- The packed flags of each run. -/
def FLAGS : List ℕ :=
  -- letters, numbers and digits of every version; letters since 14.0.0, 15.0.0, 16.0.0, 17.0.0
  let l := 0x999999; let n := 0x111111; let d := 0x555555
  let m := 0x999990; let p := 0x999900; let q := 0x990000; let r := 0x900000
  [0,0x222222,0,0x222222,0,l,0,d,0,l,0,d,l,0,n,0,l,0,l,0,l,0,l,0,l,0,l,0,l,0,l,0,l,0,n,l,0,l,0,l,0,
  l,0,l,0,l,0,l,0,l,0,l,0,l,0,l,0,l,0,l,0,l,0,l,0,d,0,l,0,l,0,l,0,l,0,l,d,l,0,l,0,l,0,l,0,l,0,l,0,d,
  l,0,l,0,l,0,l,0,l,0,l,0,l,0,l,0,l,0,m,0,m,r,0,l,m,l,m,0,l,0,l,0,l,0,l,0,d,0,l,0,l,0,l,0,l,0,l,0,l,
  0,l,0,l,0,l,0,l,0,l,0,d,l,0,n,0,l,0,l,0,l,0,l,0,l,0,l,0,l,0,l,0,l,0,l,0,d,0,l,0,l,0,l,0,l,0,l,0,l,
  0,l,0,l,0,l,0,l,0,d,0,l,0,l,0,l,0,l,0,l,0,l,0,l,0,l,0,l,0,l,0,d,0,l,n,0,l,0,l,0,l,0,l,0,l,0,l,0,l,
  0,l,0,l,0,l,0,l,0,d,n,0,l,0,l,0,l,0,l,0,l,0,l,0,r,m,0,l,0,d,0,n,0,l,0,l,0,l,0,l,0,l,0,l,0,l,0,r,m,
  l,0,l,0,d,0,l,0,l,0,l,0,l,0,l,0,l,0,l,0,n,l,0,d,n,0,l,0,l,0,l,0,l,0,l,0,l,0,d,0,l,0,l,n,0,l,0,d,0,
  l,0,l,0,l,0,l,0,l,0,l,0,l,n,0,l,0,l,0,l,0,d,0,l,0,l,0,d,n,0,l,0,l,0,l,0,l,0,l,d,0,l,0,l,0,l,0,l,0,
  l,0,l,0,l,0,d,0,l,0,l,0,l,0,l,0,l,0,l,0,l,0,l,0,l,0,l,0,l,0,l,0,l,0,l,0,l,0,l,0,l,0,l,0,l,0,l,0,d,
  n,0,l,0,l,0,l,0,l,0,l,0x222222,l,0,l,0,l,0,l,m,l,0,m,l,0,l,0,l,0,l,0,l,0,l,0,l,0,d,0,n,0,d,0,l,0,
  l,0x888888,l,0,l,0,l,0,l,0,d,l,0,l,0,l,0,l,0,d,0,l,0,l,0,d,0,d,0,l,0,l,0,l,m,0,d,0,l,0,l,d,l,0,l,
  0,d,0,l,d,l,0,l,q,0,l,0,l,0,l,0,l,0,l,0,l,0,l,0,l,0,l,0,l,0,l,0,l,0,l,0,l,0,l,0,l,0,l,0,l,0,l,0,l,
  0,l,0,l,0,l,0,l,0,l,0,l,0,0x222222,0,0x222222,0,0x222222,0,0x222222,0,d,l,0,d,0,l,d,0,l,0,l,0,l,0,
  l,0,l,0,0x888888,l,0,l,0,l,0,l,0,l,0x888888,l,0,l,0,l,0,l,0,n,l,n,0,d,n,d,n,d,n,0,d,n,d,n,d,0,d,n,
  d,n,d,n,0,l,m,l,m,l,0,l,0,l,0,n,0,l,0,l,0,l,0,l,0,l,0,l,0,l,0,l,0,l,0,l,0,l,0,l,0,l,0,l,0,n,0,
  0x222222,0,l,0,l,0,l,0,l,0,l,0,l,0,l,0,l,0,l,0,l,0,n,0,l,0,l,0,n,0,n,0,n,0,n,0,n,0,l,0,l,m,l,0,l,
  0,l,0,l,d,l,0,l,0,l,0,l,0,l,0,l,0,l,m,l,q,r,m,r,m,r,m,q,0,r,m,l,0,l,0,l,0,l,0,n,0,l,0,l,0,d,0,l,0,
  l,0,l,0,d,l,0,l,0,l,0,l,0,l,d,0,l,0,l,d,l,0,l,0,l,0,l,0,d,0,l,0,l,0,l,0,l,0,l,0,l,0,l,0,l,0,l,0,l,
  0,l,0,l,0,l,0,l,0,l,0,l,0,l,0,l,0,l,0,d,0,l,0,l,0,l,0,l,0,l,0,l,0,l,0,l,0,l,0,l,0,l,0,l,0,l,0,l,0,
  l,0,l,n,l,0,l,0,l,0,l,n,0,n,l,n,l,n,0,n,l,n,l,n,l,n,l,n,l,0,d,0,l,0,l,0,l,n,l,0,l,0,l,0,l,0,l,0,l,
  0,l,0,l,0,l,0,l,0,l,0,l,0,n,0,l,n,0,n,0,l,0,l,0,n,0,l,n,0,l,0,l,0,l,0,l,0,l,0,l,0,l,0,d,0,l,0,l,0,
  l,0,l,0,m,0,m,0,m,0,m,0,m,0,m,0,m,0,m,0,q,0,l,0,l,0,l,0,m,0,m,0,m,0,l,0,l,0,l,0,l,0,l,0,l,0,n,l,0,
  n,l,0,n,0,l,0,l,0,n,l,n,0,l,0,r,0,l,0,n,l,n,0,n,l,0,l,0,l,0,l,0,d,n,0,l,n,0,l,n,0,l,0,l,0,n,0,l,0,
  l,0,n,l,0,n,l,0,n,0,l,0,l,0,l,0,n,l,0,d,0,0x550000,q,0,q,0,d,n,0,l,0,l,0,q,r,0,l,n,l,0,l,0,n,0,m,
  0,l,n,0,l,0,l,0,d,n,d,0,m,0,m,0,l,0,l,0,d,0,l,0,d,0,l,0,l,0,l,0,l,0,l,0,l,0,d,l,0,l,0,n,0,l,0,l,0,
  p,0,l,0,l,0,l,0,l,0,l,0,l,0,d,0,l,0,l,0,l,0,l,0,l,0,l,0,l,0,l,0,l,0,q,0,q,0,q,0,q,0,q,0,q,0,q,0,l,
  0,l,0,d,0,l,0,l,0,l,0,l,0,d,0,l,0,l,0,l,0,l,0,d,0,l,0,l,0,d,0,0x550000,0,l,0,d,n,0,m,0,l,0,l,d,n,
  0,l,0,l,0,l,0,l,0,l,0,l,0,l,0,d,0,l,0,l,0,l,0,l,0,l,0,l,0,l,0,l,0,l,0,l,0,m,l,0,q,0,0x550000,0,l,
  0,l,0,l,0,d,n,0,l,0,l,0,l,0,l,0,l,0,d,0,l,0,l,0,l,0,l,0,d,0,r,0,0x500000,0,l,0,p,0,p,0,p,0,
  0x555500,0,l,0,n,0,l,0,l,0,l,0,m,0,l,p,0,p,0,q,0,l,0,q,0,0x550000,0,l,0,l,0,d,0,m,0,0x555550,0,l,
  0,l,0,l,0,d,0,n,0,l,0,l,0,q,0,0x550000,0,l,n,0,r,0,r,0,l,0,l,0,l,0,l,0,l,0,r,0,l,r,l,0,q,l,r,0,r,
  0,m,0,m,0,m,0,l,m,0,p,0,l,0,p,0,l,0,l,0,l,0,l,0,l,0,l,0,0x550000,0,0x111100,0,n,0,n,0,l,0,l,0,l,0,
  l,0,l,0,l,0,l,0,l,0,l,0,l,0,l,0,l,0,l,0,l,0,l,0,l,0,l,0,l,0,l,0,l,0,l,0,l,0,l,0,l,0,l,0,l,0,l,0,l,
  0,l,0,l,0,d,0,m,0,p,0,p,0,l,0,l,0,d,0,l,0,m,0,l,0,d,0,p,0,0x555500,0,q,0,q,0x550000,0,r,0,r,0,r,0,
  r,0,r,0,r,0,m,0,m,0,m,0,m,0,l,0,n,0,l,0,l,0,d,0,n,0,n,0,n,0,n,0,n,0,l,0,l,0,l,0,l,0,l,0,l,0,l,0,l,
  0,l,0,l,0,l,0,l,0,l,0,l,0,l,0,l,0,l,0,l,0,l,0,l,0,l,0,l,0,l,0,l,0,l,0,l,0,l,0,l,0,l,0,l,0,l,0,l,0,
  l,0,d,n,0,d,0,l,m,0,l,m,p,r,l,0,l,r,0,l,0,0x999000,0,l,0,l,0,p,r,0]

end Pydeno.Scanner.Unicode
