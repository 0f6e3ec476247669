namespace PagedIndex.Workload

def versionLine : String := "vibestore 0.1.0"

def usageLines : List String :=
  [ "runs a concurrent hash index workload over a sharded buffer pool",
    "",
    "Usage: vibestore [OPTIONS]",
    "",
    "Options:",
    "  -p, --pool-size <POOL_SIZE>              Frames per buffer pool instance [default: 64]",
    "  -i, --instances <INSTANCES>              Number of buffer pool instances [default: 4]",
    "  -k, --keys <KEYS>                        Number of distinct keys to insert [default: 10000]",
    "  -t, --threads <THREADS>                  Worker threads [default: 4]",
    "  -b, --bucket-capacity <BUCKET_CAPACITY>  Entries per hash bucket (defaults to what fits a page)",
    "  -f, --data-file <DATA_FILE>              Page file; an in-memory store is used when omitted",
    "  -s, --seed <SEED>                        Seed for key generation",
    "  -d, --debug                              Enable debug logging",
    "  -h, --help                               Print help",
    "  -V, --version                            Print version" ]

end PagedIndex.Workload
