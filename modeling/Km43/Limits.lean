import Mathlib.Tactic

namespace Km43

abbrev Bytes := List UInt8

def maxPayload : ℕ := 1024
def maxString : ℕ := 64
def maxEventBody : ℕ := 957
def maxLogPageBytes : ℕ := 896
def maxLogPageEntries : ℕ := 64
def maxDepth : ℕ := 8
def maxInflight : ℕ := 4
def maxReplayWindow : ℕ := 64
def maxAddr : ℕ := 8
def maxConfigBuses : ℕ := 8
def maxConfigDevices : ℕ := 16
def maxRowBytes : ℕ := 184
def maxInventoryPageBytes : ℕ := 880
def maxInventoryPageRows : ℕ := 48
def maxComponentCmds : ℕ := 4
def maxSeriesLen : ℕ := 16
def maxClients : ℕ := 8
def maxAdmins : ℕ := 6
def maxViewers : ℕ := 1
def maxLabel : ℕ := 32
def maxLinkText : ℕ := 32
def maxSamples : ℕ := 40
def maxSeries : ℕ := 7
def maxReadingsBytes : ℕ := 880
def innerBodyBytes : ℕ := 982
def maxScanAps : ℕ := 16
def maxSsid : ℕ := 32

end Km43
