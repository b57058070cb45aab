import MTMalloc.Basic
import MTMalloc.SizeClasses
import MTMalloc.FindByte
import MTMalloc.Tags
import MTMalloc.SuperPage
import MTMalloc.Scan
import MTMalloc.ScanLaw
import MTMalloc.Allocator
import MTMalloc.Entry
import MTMalloc.ScanThreads
import MTMalloc.LargeAligned
import MTMalloc.Release
import MTMalloc.Counters
import MTMalloc.CallLaws
import MTMalloc.Progress
import MTMalloc.ThreadRun
import MTMalloc.RunLaws
