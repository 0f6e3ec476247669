namespace PagedIndex.Workload

-- `digits` digits after the point, of which those at the end that are zero are left out.
def fraction (digits n : Nat) : String :=
  let padded := n.repr.toList.leftpad digits '0'
  match (padded.reverse.dropWhile (· == '0')).reverse with
  | [] => ""
  | kept => "." ++ String.ofList kept

-- In the largest unit of which there is one.
def describeDuration (nanoseconds : Nat) : String :=
  if nanoseconds < 1000 then nanoseconds.repr ++ "ns"
  else if nanoseconds < 1000000 then
    (nanoseconds / 1000).repr ++ fraction 3 (nanoseconds % 1000) ++ "µs"
  else if nanoseconds < 1000000000 then
    (nanoseconds / 1000000).repr ++ fraction 6 (nanoseconds % 1000000) ++ "ms"
  else (nanoseconds / 1000000000).repr ++ fraction 9 (nanoseconds % 1000000000) ++ "s"

end PagedIndex.Workload
